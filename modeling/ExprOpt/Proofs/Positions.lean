import ExprOpt.Proofs.Cells
import Mathlib.Data.List.Count

/-!
# Positions in a tree

A position is a path from the root: at each step it goes to the left or to the right child. In pre-order
a position comes before those below it, and those below its left child come before those below its right
one (`Before`). The subtrees at all positions, in this order, make up the list `Tree.subtrees`, so that a
tree occurs in it as often as there are positions that hold it (`two_le_countP`). The positions themselves,
in this order, are the list `Tree.places`, and the number of a position in it is found by counting the nodes
that come before (`getElem?_places`). The handles on a tree of cells stand in the same order
(`exists_first_path`).
-/

namespace ExprOpt

/-- One position comes before another in pre-order. -/
inductive Before : List Side → List Side → Prop where
  | root {side path} :
    Before [] (side :: path)
  | across {path path'} :
    Before (.left :: path) (.right :: path')
  | down {side path path'} :
    Before path path' →
    Before (side :: path) (side :: path')

namespace Tree

variable {α β : Type}

/-- The subtree on one side. -/
def child : Tree α → Side → Tree α
  | .nil, _ => .nil
  | .node _ l r, side => side.pick l r

/-- The subtree at a position. Positions outside of the tree hold the empty tree. -/
def down (t : Tree α) (path : List Side) : Tree α := path.foldl child t

/-- The subtrees at all positions of a tree, in pre-order. -/
def subtrees : Tree α → List (Tree α)
  | .nil => []
  | .node a l r => .node a l r :: (l.subtrees ++ r.subtrees)

/-- The whole tree stands at the root. -/
@[simp] lemma down_nil (t : Tree α) : t.down [] = t := rfl

/-- A path goes down to a child first. -/
@[simp] lemma down_cons (t : Tree α) (side : Side) (path : List Side) :
    t.down (side :: path) = (t.child side).down path := rfl

/-- The last step of a path goes to a child of what stands before it. -/
lemma down_concat (t : Tree α) (path : List Side) (side : Side) :
    t.down (path ++ [side]) = (t.down path).child side := List.foldl_append

/-- There is nothing below the empty tree. -/
lemma empty_down (path : List Side) : (nil : Tree α).down path = nil := by
  induction path with
  | nil => rfl
  | cons side path ih => exact ih

/-- Other contents stand at the same children. -/
lemma map_child (f : α → β) (t : Tree α) (side : Side) : (t.map f).child side = (t.child side).map f := by
  cases t with
  | nil => rfl
  | node a l r => cases side <;> rfl

/-- Other contents stand at the same positions. -/
lemma map_down (f : α → β) (t : Tree α) (path : List Side) :
    (t.map f).down path = (t.down path).map f := by
  induction path generalizing t with
  | nil => rfl
  | cons side path ih => rw [down_cons, down_cons, map_child, ih]

/-- No child is larger than its tree. -/
lemma size_child_le (t : Tree α) (side : Side) : (t.child side).size ≤ t.size := by
  cases t with
  | nil => exact le_rfl
  | node a l r =>
    simp only [size]
    cases side with
    | left => exact (Nat.le_add_left _ _).trans (Nat.le_add_right _ _)
    | right => exact Nat.le_add_left _ _

/-- No subtree is larger than its tree. -/
lemma size_down_le (t : Tree α) (path : List Side) : (t.down path).size ≤ t.size := by
  induction path generalizing t with
  | nil => exact le_rfl
  | cons side path ih => exact (ih _).trans (t.size_child_le side)

/-- No tree occurs properly within itself. -/
lemma down_ne_self {a : α} {l r : Tree α} {side : Side} {path : List Side} :
    (node a l r).down (side :: path) ≠ node a l r := by
  intro e
  have le := size_down_le ((node a l r).child side) path
  rw [down_cons] at e
  rw [e] at le
  cases side <;> simp only [child, Side.pick, size] at le <;> omega

/-- What stands at a position is listed among the subtrees. -/
lemma down_mem_subtrees {t : Tree α} {path : List Side} (ne : t.down path ≠ nil) :
    t.down path ∈ t.subtrees := by
  induction path generalizing t with
  | nil =>
    cases t with
    | nil => exact absurd rfl ne
    | node a l r => exact List.mem_cons_self
  | cons side path ih =>
    cases t with
    | nil => exact absurd (empty_down _) ne
    | node a l r =>
      have below := ih ne
      cases side with
      | left => exact .tail _ (List.mem_append_left _ below)
      | right => exact .tail _ (List.mem_append_right _ below)

/-- No listed subtree is larger than the tree. -/
lemma size_le_of_mem_subtrees {t d : Tree α} (mem : d ∈ t.subtrees) : d.size ≤ t.size := by
  induction t with
  | nil => cases mem
  | node a l r ihl ihr =>
    cases mem with
    | head => exact le_rfl
    | tail _ mem =>
      simp only [size]
      rcases List.mem_append.1 mem with mem | mem
      · exact (ihl mem).trans (by omega)
      · exact (ihr mem).trans (by omega)

/-- Among its own subtrees a tree occurs once, at the root. -/
lemma count_subtrees_self [DecidableEq α] (a : α) (l r : Tree α) :
    (node a l r).subtrees.count (node a l r) = 1 := by
  have outside : node a l r ∉ l.subtrees ++ r.subtrees := by
    intro mem
    have le : (node a l r).size ≤ l.size + r.size := by
      rcases List.mem_append.1 mem with mem | mem
      · exact (size_le_of_mem_subtrees mem).trans (Nat.le_add_right _ _)
      · exact (size_le_of_mem_subtrees mem).trans (Nat.le_add_left _ _)
    simp only [size] at le
    omega
  rw [subtrees, List.count_cons_self, List.count_eq_zero_of_not_mem outside]

/-- What stands at a position counts among the subtrees. -/
lemma countP_pos_of_down {P : Tree α → Bool} {t : Tree α} {path : List Side} (ne : t.down path ≠ nil)
    (holds : P (t.down path)) : 0 < t.subtrees.countP P :=
  List.countP_pos_iff.2 ⟨_, down_mem_subtrees ne, holds⟩

/-- The subtrees of one child count among those of both. -/
lemma countP_pick_le (P : Tree α → Bool) (l r : Tree α) (side : Side) :
    (side.pick l r).subtrees.countP P ≤ l.subtrees.countP P + r.subtrees.countP P := by
  cases side with
  | left => exact Nat.le_add_right _ _
  | right => exact Nat.le_add_left _ _

/-- What holds of the subtrees at two positions holds of two members of the list of subtrees. -/
lemma two_le_countP {P : Tree α → Bool} {t : Tree α} {path path' : List Side} (ne : path ≠ path')
    (there : t.down path ≠ nil) (there' : t.down path' ≠ nil) (holds : P (t.down path))
    (holds' : P (t.down path')) : 2 ≤ t.subtrees.countP P := by
  induction t generalizing path path' with
  | nil => exact absurd (empty_down _) there
  | node a l r ihl ihr =>
    have below {side path} (there : (node a l r).down (side :: path) ≠ nil)
        (holds : P ((node a l r).down (side :: path))) : 0 < (side.pick l r).subtrees.countP P :=
      countP_pos_of_down there holds
    have most := countP_pick_le P l r
    rw [subtrees, List.countP_cons, List.countP_append]
    cases path with
    | nil =>
      cases path' with
      | nil => exact absurd rfl ne
      | cons side path' =>
        have here : P (node a l r) = true := holds
        have := below there' holds'
        rw [if_pos here]
        exact Nat.succ_le_succ (this.trans_le (most side))
    | cons side path =>
      have one := below there holds
      cases path' with
      | nil =>
        have here : P (node a l r) = true := holds'
        rw [if_pos here]
        exact Nat.succ_le_succ (one.trans_le (most side))
      | cons side' path' =>
        have other := below there' holds'
        refine le_trans ?_ (Nat.le_add_right _ _)
        cases side with
        | left =>
          cases side' with
          | left =>
            exact (ihl (fun e => ne (by rw [e])) there there' holds holds').trans (Nat.le_add_right _ _)
          | right => exact Nat.add_le_add one other
        | right =>
          cases side' with
          | left => exact Nat.add_le_add other one
          | right =>
            exact (ihr (fun e => ne (by rw [e])) there there' holds holds').trans (Nat.le_add_left _ _)

/-! ### The numbers of the positions -/

/-- The positions of a tree and what stands there, in pre-order. -/
def places : Tree α → List (List Side × α)
  | .nil => []
  | .node a l r =>
    ([], a) :: (l.places.map (Prod.map (.left :: ·) id) ++ r.places.map (Prod.map (.right :: ·) id))

/-- The number of a position in pre-order. -/
def rank : Tree α → List Side → Nat
  | .node _ l _, .left :: path => 1 + l.rank path
  | .node _ l r, .right :: path => 1 + l.size + r.rank path
  | _, _ => 0

/-- The root comes first. -/
lemma rank_nil (t : Tree α) : t.rank [] = 0 := by
  cases t <;> rfl

/-- There are as many positions as nodes. -/
lemma length_places (t : Tree α) : t.places.length = t.size := by
  induction t with
  | nil => rfl
  | node a l r ihl ihr =>
    rw [places, List.length_cons, List.length_append, List.length_map, List.length_map, ihl, ihr, size]
    omega

/-- No position has a number beyond the size of the tree. -/
lemma rank_lt {t : Tree α} {path : List Side} (there : t.down path ≠ nil) : t.rank path < t.size := by
  induction path generalizing t with
  | nil =>
    cases t with
    | nil => exact absurd rfl there
    | node a l r =>
      simp only [rank, size]
      omega
  | cons side path ih =>
    cases t with
    | nil => exact absurd (empty_down _) there
    | node a l r =>
      have below := ih there
      cases side with
      | left =>
        simp only [rank, size, child, Side.pick] at below ⊢
        omega
      | right =>
        simp only [rank, size, child, Side.pick] at below ⊢
        omega

/-- All other positions come after the root. -/
lemma rank_pos {t : Tree α} {side : Side} {path : List Side} (there : t.down (side :: path) ≠ nil) :
    0 < t.rank (side :: path) := by
  cases t with
  | nil => exact absurd (empty_down _) there
  | node a l r =>
    cases side with
    | left =>
      rw [rank]
      omega
    | right =>
      rw [rank]
      omega

/-- Every position stands in the list at its number. -/
lemma getElem?_rank {t l r : Tree α} {path : List Side} {a : α} (found : t.down path = node a l r) :
    t.places[t.rank path]? = some (path, a) := by
  induction path generalizing t with
  | nil =>
    rw [down_nil] at found
    rw [found]
    rfl
  | cons side path ih =>
    cases t with
    | nil =>
      rw [empty_down] at found
      cases found
    | node b l r =>
      have count : (l.places.map (Prod.map (Side.left :: ·) id)).length = l.size := by
        rw [List.length_map, length_places]
      cases side with
      | left =>
        have below : l.places[l.rank path]? = some (path, a) := ih found
        have inside := (List.getElem?_eq_some_iff.1 below).1
        rw [length_places, ← count] at inside
        rw [rank, places, Nat.add_comm, List.getElem?_cons_succ, List.getElem?_append_left inside,
          List.getElem?_map, below]
        rfl
      | right =>
        have below : r.places[r.rank path]? = some (path, a) := ih found
        rw [rank, places, Nat.add_assoc, Nat.add_comm, List.getElem?_cons_succ,
          List.getElem?_append_right (by omega), count, Nat.add_sub_cancel_left, List.getElem?_map, below]
        rfl

/-- The list of all positions has each of them at the place of its number. -/
lemma getElem?_places {t : Tree α} {path : List Side} {i : Nat} {a : α} :
    t.places[i]? = some (path, a) ↔ i = t.rank path ∧ ∃ l r, t.down path = node a l r := by
  refine ⟨fun found => ?_, ?_⟩
  · induction t generalizing i path with
    | nil => cases found
    | node b l r ihl ihr =>
      cases i with
      | zero =>
        cases found
        exact ⟨rfl, l, r, rfl⟩
      | succ i =>
        rw [places, List.getElem?_cons_succ, List.getElem?_append, List.length_map, length_places] at found
        split at found
        · rw [List.getElem?_map, Option.map_eq_some_iff] at found
          obtain ⟨⟨path, a⟩, found, ⟨⟩⟩ := found
          obtain ⟨rfl, below⟩ := ihl found
          exact ⟨Nat.add_comm _ _, below⟩
        · rw [List.getElem?_map, Option.map_eq_some_iff] at found
          obtain ⟨⟨path, a⟩, found, ⟨⟩⟩ := found
          obtain ⟨e, below⟩ := ihr found
          refine ⟨?_, below⟩
          rw [rank, ← e]
          omega
  · rintro ⟨rfl, l, r, found⟩
    exact getElem?_rank found

/-! ### The handles at the positions -/

/-- The handle at the root of a tree. -/
def top? : Tree Cell → Option Handle
  | .nil => none
  | .node cell _ _ => some cell.handle

/-- The handle at a position is listed. -/
lemma mem_handles_of_down {c : Tree Cell} {h : Handle} {path : List Side}
    (top : (c.down path).top? = some h) : h ∈ c.handles := by
  induction path generalizing c with
  | nil =>
    cases c with
    | nil => cases top
    | node cell l r =>
      cases top
      exact List.mem_cons_self
  | cons side path ih =>
    cases c with
    | nil =>
      rw [empty_down] at top
      cases top
    | node cell l r =>
      have below := ih top
      cases side with
      | left => exact .tail _ (List.mem_append_left _ below)
      | right => exact .tail _ (List.mem_append_right _ below)

/-- A place in the list of handles is a position of the tree. The positions before it hold the handles
before that place. -/
lemma exists_first_path {c : Tree Cell} {h : Handle} {before after : List Handle}
    (split : c.handles = before ++ h :: after) :
    ∃ path, (c.down path).top? = some h ∧
      ∀ path' g, Before path' path → (c.down path').top? = some g → g ∈ before := by
  induction c generalizing before after with
  | nil =>
    cases before with
    | nil => cases split
    | cons => cases split
  | node cell l r ihl ihr =>
    cases before with
    | nil =>
      cases split
      refine ⟨[], rfl, fun path g earlier => ?_⟩
      cases earlier
    | cons g before =>
      rw [handles, List.cons_append] at split
      obtain ⟨rfl, rest⟩ := List.cons.inj split
      -- The place is on the left, unless all handles there are before it.
      rcases List.append_eq_append_iff.1 rest with ⟨middle, rfl, right⟩ | ⟨middle, left, right⟩
      · obtain ⟨path, top, earlier⟩ := ihr right
        refine ⟨.right :: path, top, fun path' g le top' => ?_⟩
        cases le with
        | root =>
          cases top'
          exact List.mem_cons_self
        | across => exact .tail _ (List.mem_append_left _ (mem_handles_of_down top'))
        | down le => exact .tail _ (List.mem_append_right _ (earlier _ g le top'))
      · cases middle with
        | nil =>
          rw [List.nil_append] at right
          rw [List.append_nil] at left
          obtain ⟨path, top, earlier⟩ := @ihr [] _ right.symm
          refine ⟨.right :: path, top, fun path' g le top' => ?_⟩
          cases le with
          | root =>
            cases top'
            exact List.mem_cons_self
          | across => exact .tail _ (left ▸ mem_handles_of_down top')
          | down le => exact absurd (earlier _ g le top') List.not_mem_nil
        | cons _ middle =>
          obtain ⟨rfl, right⟩ := List.cons.inj right
          obtain ⟨path, top, earlier⟩ := ihl left
          refine ⟨.left :: path, top, fun path' g le top' => ?_⟩
          cases le with
          | root =>
            cases top'
            exact List.mem_cons_self
          | down le => exact .tail _ (earlier _ g le top')

/-- Every listed handle stands at a position. -/
lemma exists_path_of_mem {c : Tree Cell} {h : Handle} (mem : h ∈ c.handles) :
    ∃ path, (c.down path).top? = some h := by
  obtain ⟨before, after, split⟩ := List.append_of_mem mem
  obtain ⟨path, top, -⟩ := exists_first_path split
  exact ⟨path, top⟩

end Tree

end ExprOpt
