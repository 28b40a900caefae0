import ExprOpt.Proofs.Appending

/-!
# The cells of a tree

The tree below a handle with the handles on it (`Store.Cells`), which is what the executable unfolding
returns (`unfold_eq_ok_iff`). If no handle stands on it twice then nothing in it is shared: each of its
handles but the topmost is the child of exactly one node of the tree, in one of the two slots
(`Cells.existsUnique_parent`).
-/

namespace ExprOpt

/-- A child and the slot that it stands in. -/
structure Edge where
  parent : Handle
  side : Side
  child : Handle

namespace Tree

/-- The handles in a tree, parents before their children. -/
def handles : Tree Cell → List Handle
  | .nil => []
  | .node cell l r => cell.handle :: (l.handles ++ r.handles)

/-- The edge that leads to the top of a tree. -/
def stem (parent : Handle) (side : Side) : Tree Cell → List Edge
  | .nil => []
  | .node cell _ _ => [⟨parent, side, cell.handle⟩]

/-- The edges in a tree, in the order of the handles that they lead to. -/
def edges : Tree Cell → List Edge
  | .nil => []
  | .node cell l r =>
    (stem cell.handle .left l ++ l.edges) ++ (stem cell.handle .right r ++ r.edges)

/-- Every node stands at a higher index than those below it. -/
def Descending : Tree Cell → Prop
  | .nil => True
  | .node cell l r =>
    (∀ h ∈ l.handles ++ r.handles, h.index < cell.handle.index) ∧ l.Descending ∧ r.Descending

/-- There are as many handles as nodes, those that are shared being listed each time. -/
lemma length_handles (c : Tree Cell) : c.handles.length = c.size := by
  induction c with
  | nil => rfl
  | node cell l r ihl ihr =>
    simp only [handles, size, List.length_cons, List.length_append, ihl, ihr]
    omega

/-- Other contents make a tree no larger. -/
lemma size_map {α β : Type} (f : α → β) (t : Tree α) : (t.map f).size = t.size := by
  induction t with
  | nil => rfl
  | node a l r ihl ihr => simp only [map, size, ihl, ihr]

/-- An edge leads to each handle, if one leads to the top. -/
lemma map_child_edges (parent : Handle) (side : Side) (c : Tree Cell) :
    (stem parent side c ++ c.edges).map Edge.child = c.handles := by
  induction c generalizing parent side with
  | nil => rfl
  | node cell l r ihl ihr =>
    simp only [stem, edges, handles, List.map_append, List.map_cons,
      List.singleton_append] at ihl ihr ⊢
    rw [ihl, ihr]

end Tree

namespace Store

variable {s s' : Store} {o : Option Handle} {c : Tree Cell}

/-- The tree of cells below a handle. -/
inductive Cells (s : Store) : Option Handle → Tree Cell → Prop where
  | nil :
    Cells s none .nil
  | node {h n l r} :
    s.node? h = some n →
    Cells s n.left l →
    Cells s n.right r →
    Cells s (some h) (.node ⟨h, n.kind⟩ l r)

namespace Cells

/-- The cells below a handle are its node and the cells below the children. -/
lemma inv {h : Handle} (cs : s.Cells (some h) c) : ∃ n l r, s.node? h = some n ∧
    s.Cells n.left l ∧ s.Cells n.right r ∧ c = .node ⟨h, n.kind⟩ l r := by
  cases cs with
  | node found cl cr => exact ⟨_, _, _, found, cl, cr, rfl⟩

/-- There are no cells where there is no handle. -/
lemma nil_inv (cs : s.Cells none c) : c = .nil := by
  cases cs
  rfl

/-- The cells below a handle are determined by the store. -/
lemma unique {c' : Tree Cell} (cs : s.Cells o c) (cs' : s.Cells o c') : c = c' := by
  induction cs generalizing c' with
  | nil => exact cs'.nil_inv.symm
  | node found _ _ ihl ihr =>
    obtain ⟨n', l', r', found', cl', cr', rfl⟩ := cs'.inv
    cases Option.some.inj (found.symm.trans found')
    rw [ihl cl', ihr cr']

/-- Cells stay as they are in an extension of the store. -/
lemma extend (cs : s.Cells o c) (e : s.Extends s') : s'.Cells o c := by
  induction cs with
  | nil => exact .nil
  | node found _ _ ihl ihr => exact .node (e _ _ found) ihl ihr

/-- Without their handles, cells are the tree that the handle unfolds to. -/
lemma unfolds (cs : s.Cells o c) : s.Unfolds o (c.map Cell.kind) := by
  induction cs with
  | nil => exact .nil
  | node found _ _ ihl ihr => exact .node found ihl ihr

/-- All cells are taken from the store. -/
lemma index_lt (cs : s.Cells o c) : ∀ h ∈ c.handles, h.index < s.size := by
  induction cs with
  | nil => exact nofun
  | node found _ _ ihl ihr =>
    intro g mem
    rcases List.mem_cons.1 mem with rfl | mem
    · exact index_lt_of_node? found
    · rcases List.mem_append.1 mem with mem | mem
      · exact ihl g mem
      · exact ihr g mem

/-- The stem of a subtree is what its slot holds. -/
lemma mem_stem {p : Handle} {side : Side} {e : Edge} (cs : s.Cells o c) :
    e ∈ c.stem p side ↔ e.parent = p ∧ e.side = side ∧ o = some e.child := by
  cases cs with
  | nil => simp [Tree.stem]
  | @node h n l r found _ _ =>
    obtain ⟨parent, side', child⟩ := e
    simp only [Tree.stem, List.mem_singleton, Edge.mk.injEq, Option.some.injEq, eq_comm (a := h)]

/-- The edges of a tree are the filled slots of its nodes. -/
lemma mem_edges {e : Edge} (cs : s.Cells o c) : e ∈ c.edges ↔
    e.parent ∈ c.handles ∧ ∃ n, s.node? e.parent = some n ∧ n.slot e.side = some e.child := by
  induction cs with
  | nil => simp [Tree.edges, Tree.handles]
  | @node h n l r found cl cr ihl ihr =>
    simp only [Tree.edges, Tree.handles, List.mem_append, List.mem_cons, ihl, ihr, cl.mem_stem, cr.mem_stem]
    constructor
    · rintro ((⟨rfl, side, slot⟩ | ⟨mem, below⟩) | ⟨rfl, side, slot⟩ | ⟨mem, below⟩)
      · exact ⟨.inl rfl, n, found, by rw [side]; exact slot⟩
      · exact ⟨.inr (.inl mem), below⟩
      · exact ⟨.inl rfl, n, found, by rw [side]; exact slot⟩
      · exact ⟨.inr (.inr mem), below⟩
    · rintro ⟨rfl | mem | mem, m, found', slot⟩
      · cases Option.some.inj (found.symm.trans found')
        cases side : e.side with
        | left => exact .inl (.inl ⟨rfl, rfl, by rw [side] at slot; exact slot⟩)
        | right => exact .inr (.inl ⟨rfl, rfl, by rw [side] at slot; exact slot⟩)
      · exact .inl (.inr ⟨mem, m, found', slot⟩)
      · exact .inr (.inr ⟨mem, m, found', slot⟩)

/-- In a tree whose handles are all different, each but the topmost has one parent and one place below
it. -/
lemma existsUnique_parent {h g : Handle} (cs : s.Cells (some h) c) (nodup : c.handles.Nodup)
    (mem : g ∈ c.handles) (ne : g ≠ h) : ∃! p : Handle × Side,
      p.1 ∈ c.handles ∧ ∃ n, s.node? p.1 = some n ∧ n.slot p.2 = some g := by
  obtain ⟨n, l, r, -, -, -, e⟩ := cs.inv
  have children : c.edges.map Edge.child = l.handles ++ r.handles := by
    rw [e, Tree.edges, List.map_append, Tree.map_child_edges, Tree.map_child_edges]
  have below : g ∈ c.edges.map Edge.child := by
    rw [e, Tree.handles, List.mem_cons] at mem
    rw [children]
    exact mem.resolve_left ne
  have distinct : (c.edges.map Edge.child).Nodup := by
    rw [e, Tree.handles] at nodup
    rw [children]
    exact nodup.of_cons
  obtain ⟨edge, edgeMem, rfl⟩ := List.mem_map.1 below
  refine ⟨(edge.parent, edge.side), cs.mem_edges.1 edgeMem, ?_⟩
  rintro ⟨p, side⟩ slot
  -- Another slot with the same handle would be another edge to it.
  have other : (⟨p, side, edge.child⟩ : Edge) ∈ c.edges := cs.mem_edges.2 slot
  have same := List.inj_on_of_nodup_map distinct other edgeMem rfl
  rw [← same]

/-- Nothing in a descending tree stands above its root. -/
lemma index_le_root {h g : Handle} (cs : s.Cells (some h) c) (desc : c.Descending)
    (mem : g ∈ c.handles) : g.index ≤ h.index := by
  obtain ⟨n, l, r, -, -, -, rfl⟩ := cs.inv
  rcases List.mem_cons.1 mem with rfl | below
  · exact le_rfl
  · exact (desc.1 g below).le

/-- The children of a node in a descending tree are in the tree, at lower indices. -/
lemma slot_descending {g d : Handle} {n : Node} {side : Side} (cs : s.Cells o c)
    (desc : c.Descending) (mem : g ∈ c.handles) (found : s.node? g = some n)
    (slot : n.slot side = some d) : d ∈ c.handles ∧ d.index < g.index := by
  induction cs with
  | nil => cases mem
  | @node h m l r found' cl cr ihl ihr =>
    obtain ⟨lower, dl, dr⟩ := desc
    rcases List.mem_cons.1 mem with rfl | mem
    · cases Option.some.inj (found.symm.trans found')
      have inside : d ∈ l.handles ++ r.handles := by
        cases side with
        | left =>
          have cl' : s.Cells (some d) l := slot ▸ cl
          obtain ⟨_, _, _, -, -, -, rfl⟩ := cl'.inv
          exact List.mem_append_left _ List.mem_cons_self
        | right =>
          have cr' : s.Cells (some d) r := slot ▸ cr
          obtain ⟨_, _, _, -, -, -, rfl⟩ := cr'.inv
          exact List.mem_append_right _ List.mem_cons_self
      exact ⟨.tail _ inside, lower d inside⟩
    · rcases List.mem_append.1 mem with mem | mem
      · obtain ⟨inside, lt⟩ := ihl dl mem
        exact ⟨.tail _ (List.mem_append_left _ inside), lt⟩
      · obtain ⟨inside, lt⟩ := ihr dr mem
        exact ⟨.tail _ (List.mem_append_right _ inside), lt⟩

end Cells

/-- Unfolding to some depth finds the cells, if it succeeds. -/
lemma cells_of_unfoldWithin {depth : Nat} (e : s.unfoldWithin depth o = .ok c) : s.Cells o c := by
  induction depth generalizing o c with
  | zero =>
    cases o with
    | none =>
      cases e
      exact .nil
    | some h => cases e
  | succ depth ih =>
    cases o with
    | none =>
      cases e
      exact .nil
    | some h =>
      simp only [unfoldWithin, bind, Except.bind] at e
      split at e
      · cases e
      · split at e
        · cases e
        · split at e
          · cases e
          · cases e
            exact .node (node_eq_ok_iff.1 ‹_›) (ih ‹_›) (ih ‹_›)

/-- The executable unfolding finds exactly the tree of cells. -/
lemma unfold_eq_ok_iff : s.unfold o = .ok c ↔ s.Cells o c := by
  constructor
  · exact cells_of_unfoldWithin
  · intro cs
    have u := cs.unfolds
    obtain ⟨c', e, -⟩ := u.unfoldWithin (s.size + 1) (by have := u.height_le; omega)
    rw [cs.unique (cells_of_unfoldWithin e)]
    exact e

/-- Every tree that a handle unfolds to is made up of cells. -/
lemma Unfolds.cells {t : Tree Kind} (u : s.Unfolds o t) : ∃ c, s.Cells o c ∧ c.map Cell.kind = t := by
  obtain ⟨c, e, rfl⟩ := u.unfoldWithin (s.size + 1) (by have := u.height_le; omega)
  exact ⟨c, cells_of_unfoldWithin e, rfl⟩

end Store

end ExprOpt
