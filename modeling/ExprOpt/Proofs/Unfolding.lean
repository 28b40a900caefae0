import ExprOpt.Tree
import Mathlib.Data.Fintype.EquivFin
import Mathlib.Order.WellFounded
import Mathlib.Logic.Relation

/-!
# Unfolding a store

The relation `Store.Unfolds` between a handle and the tree of kinds below it. A tree has finitely many
levels, so a handle unfolds only if no cycle and no dangling handle can be reached from it. The
executable `Store.unfold` decides the relation (`tree_eq_ok_iff`), because the trees of a store are no
higher than the store is large (`Unfolds.height_le`).

A store in which nothing dangles and no node is below itself is one in which every allocated handle
unfolds (`Grounded.of_closed_acyclic`, `Grounded.closed_acyclic`).
-/

namespace ExprOpt

/-- The number of levels of a tree. -/
def Tree.height {α : Type} : Tree α → Nat
  | .nil => 0
  | .node _ l r => max l.height r.height + 1

namespace Store

/-- The kinds in the tree below a handle. -/
def tree (s : Store) (h : Option Handle) : Except Error (Tree Kind) :=
  Tree.map Cell.kind <$> s.unfold h

/-- The tree of kinds below a handle. -/
inductive Unfolds (s : Store) : Option Handle → Tree Kind → Prop where
  | nil :
    Unfolds s none .nil
  | node {h n l r} :
    s.node? h = some n →
    Unfolds s n.left l →
    Unfolds s n.right r →
    Unfolds s (some h) (.node n.kind l r)

/-- `c` stands in a child slot of the node at `h`. -/
def Child (s : Store) (h c : Handle) : Prop :=
  ∃ n, s.node? h = some n ∧ (n.left = some c ∨ n.right = some c)

/-- A walk down the children leads from one handle to another. -/
def Reaches (s : Store) : Handle → Handle → Prop := Relation.ReflTransGen s.Child

/-- No child slot holds a handle that nothing has been allocated for. -/
def Closed (s : Store) : Prop := ∀ h c, s.Child h c → c.index < s.size

/-- No node is below itself. -/
def Acyclic (s : Store) : Prop := ∀ h, ¬ Relation.TransGen s.Child h h

/-- Every allocated handle has a tree below it. -/
def Grounded (s : Store) : Prop := ∀ h, h.index < s.size → ∃ t, s.Unfolds (some h) t

/-- A handle has a node if and only if it is within the size of the store. -/
lemma isSome_node?_iff {s : Store} {h : Handle} : (s.node? h).isSome ↔ h.index < s.size := by
  simp [node?, size]

/-- A node is only found within the size of the store. -/
lemma index_lt_of_node? {s : Store} {h : Handle} {n} (found : s.node? h = some n) :
    h.index < s.size :=
  isSome_node?_iff.1 (by rw [found]; rfl)

/-- There is a node within the size of the store. -/
lemma exists_node? {s : Store} {h : Handle} (lt : h.index < s.size) : ∃ n, s.node? h = some n :=
  Option.isSome_iff_exists.1 (isSome_node?_iff.2 lt)

/-- A handle that unfolds has a node whose children unfold. -/
lemma Unfolds.inv {s : Store} {h t} (u : s.Unfolds (some h) t) :
    ∃ n l r, s.node? h = some n ∧ s.Unfolds n.left l ∧ s.Unfolds n.right r ∧
      t = .node n.kind l r := by
  cases u with
  | node found ul ur => exact ⟨_, _, _, found, ul, ur, rfl⟩

/-- The absence of a handle unfolds to the empty tree. -/
lemma Unfolds.nil_inv {s : Store} {t} (u : s.Unfolds none t) : t = .nil := by
  cases u
  rfl

/-- A handle that unfolds is allocated. -/
lemma Unfolds.index_lt {s : Store} {h t} (u : s.Unfolds (some h) t) : h.index < s.size := by
  obtain ⟨n, _, _, found, _, _, _⟩ := u.inv
  exact index_lt_of_node? found

/-- There is at most one tree below a handle. -/
lemma Unfolds.unique {s : Store} {h t t'} (u : s.Unfolds h t) (u' : s.Unfolds h t') : t = t' := by
  induction u generalizing t' with
  | nil => exact u'.nil_inv.symm
  | node found _ _ ihl ihr =>
    obtain ⟨n', l', r', found', ul', ur', e⟩ := u'.inv
    cases Option.some.inj (found.symm.trans found')
    rw [e, ihl ul', ihr ur']

/-- The tree below a child is lower than the tree below its parent. -/
lemma Unfolds.child {s : Store} {h c t} (u : s.Unfolds (some h) t) (ch : s.Child h c) :
    ∃ tc, s.Unfolds (some c) tc ∧ tc.height < t.height := by
  obtain ⟨n, l, r, found, ul, ur, rfl⟩ := u.inv
  obtain ⟨n', found', side⟩ := ch
  cases Option.some.inj (found.symm.trans found')
  rcases side with e | e
  · refine ⟨l, e ▸ ul, ?_⟩
    simp only [Tree.height]
    omega
  · refine ⟨r, e ▸ ur, ?_⟩
    simp only [Tree.height]
    omega

/-- Whatever is reached from a handle that unfolds has a tree that is no higher. -/
lemma Unfolds.reaches {s : Store} {h g t} (u : s.Unfolds (some h) t) (path : s.Reaches h g) :
    ∃ tg, s.Unfolds (some g) tg ∧ tg.height ≤ t.height := by
  induction path with
  | refl => exact ⟨t, u, le_rfl⟩
  | tail _ step ih =>
    obtain ⟨tb, ub, hb⟩ := ih
    obtain ⟨tc, uc, hc⟩ := ub.child step
    exact ⟨tc, uc, by omega⟩

/-- No walk leads from a child of a handle that unfolds back to the handle. -/
lemma Unfolds.not_reaches {s : Store} {h c t} (u : s.Unfolds (some h) t) (ch : s.Child h c) :
    ¬ s.Reaches c h := by
  intro path
  obtain ⟨tc, uc, lower⟩ := u.child ch
  obtain ⟨th, uh, le⟩ := uc.reaches path
  rw [u.unique uh] at lower
  omega

/-- A store has trees of every height up to that of any of its trees. -/
lemma Unfolds.exists_height {s : Store} {h t} (u : s.Unfolds h t) :
    ∀ k, 0 < k → k ≤ t.height → ∃ g tg, s.Unfolds (some g) tg ∧ tg.height = k := by
  induction u with
  | nil =>
    intro k pos le
    simp only [Tree.height] at le
    omega
  | @node h n l r found ul ur ihl ihr =>
    intro k pos le
    simp only [Tree.height] at le
    by_cases kl : k ≤ l.height
    · exact ihl k pos kl
    by_cases kr : k ≤ r.height
    · exact ihr k pos kr
    refine ⟨h, _, .node found ul ur, ?_⟩
    simp only [Tree.height]
    omega

/-- The trees of a store are no higher than the store is large. -/
lemma Unfolds.height_le {s : Store} {h t} (u : s.Unfolds h t) : t.height ≤ s.size := by
  -- a handle for every height up to that of `t`; equal handles would have trees of equal height
  have level : ∀ i : Fin t.height, ∃ g : Fin s.size, ∃ tg,
      s.Unfolds (some ⟨g⟩) tg ∧ tg.height = i + 1 := by
    intro i
    obtain ⟨g, tg, ug, e⟩ := u.exists_height (i + 1) (by omega) (by omega)
    exact ⟨⟨g.index, ug.index_lt⟩, tg, ug, e⟩
  choose g tg ug height using level
  have injective : Function.Injective g := by
    intro i j e
    have same := (ug i).unique (e ▸ ug j)
    have hi := height i
    rw [same, height j] at hi
    exact Fin.ext (by omega)
  simpa using Fintype.card_le_of_injective g injective

/-- Following a handle succeeds where there is a node. -/
lemma node_eq_ok_iff {s : Store} {h n} : s.node h = .ok n ↔ s.node? h = some n := by
  rw [Store.node]
  cases s.node? h <;> simp

/-- Whatever the executable unfolding returns is the tree below the handle. -/
lemma unfolds_of_unfoldWithin {s : Store} {depth h t} (e : s.unfoldWithin depth h = .ok t) :
    s.Unfolds h (t.map Cell.kind) := by
  induction depth generalizing h t with
  | zero =>
    cases h with
    | none =>
      cases e
      exact .nil
    | some h => cases e
  | succ depth ih =>
    cases h with
    | none =>
      cases e
      exact .nil
    | some h =>
      simp only [unfoldWithin, Store.node] at e
      cases found : s.node? h with
      | none =>
        rw [found] at e
        cases e
      | some n =>
        simp only [found, bind, Except.bind] at e
        cases el : s.unfoldWithin depth n.left with
        | error _ =>
          rw [el] at e
          cases e
        | ok l =>
          cases er : s.unfoldWithin depth n.right with
          | error _ =>
            rw [el, er] at e
            cases e
          | ok r =>
            rw [el, er] at e
            cases e
            exact .node found (ih el) (ih er)

/-- Unfolding as many levels as the tree has succeeds. -/
lemma Unfolds.unfoldWithin {s : Store} {h t} (u : s.Unfolds h t) :
    ∀ depth, t.height ≤ depth → ∃ c, s.unfoldWithin depth h = .ok c ∧ c.map Cell.kind = t := by
  induction u with
  | nil =>
    intro depth _
    cases depth <;> exact ⟨.nil, rfl, rfl⟩
  | @node h n l r found _ _ ihl ihr =>
    intro depth le
    simp only [Tree.height] at le
    obtain ⟨depth, rfl⟩ : ∃ d, depth = d + 1 := ⟨depth - 1, by omega⟩
    obtain ⟨cl, el, ml⟩ := ihl depth (by omega)
    obtain ⟨cr, er, mr⟩ := ihr depth (by omega)
    refine ⟨.node ⟨h, n.kind⟩ cl cr, ?_, ?_⟩
    · simp only [Store.unfoldWithin, Store.node, found, bind, Except.bind, el, er]
    · simp only [Tree.map, ml, mr]

/-- The executable unfolding finds exactly the tree below a handle. -/
lemma tree_eq_ok_iff {s : Store} {h t} : s.tree h = .ok t ↔ s.Unfolds h t := by
  constructor
  · intro e
    simp only [tree] at e
    cases found : s.unfold h with
    | error _ =>
      rw [found] at e
      cases e
    | ok c =>
      rw [found] at e
      cases e
      exact unfolds_of_unfoldWithin found
  · intro u
    obtain ⟨c, found, e⟩ := u.unfoldWithin (s.size + 1) (by have := u.height_le; omega)
    simp only [tree, unfold, found, Functor.map, Except.map, e]

/-- Without cycles, the nodes below others are well-founded. -/
lemma Acyclic.wellFounded {s : Store} (acyclic : s.Acyclic) :
    WellFounded fun c h : Fin s.size => Relation.TransGen s.Child ⟨h⟩ ⟨c⟩ := by
  have : IsTrans (Fin s.size) fun c h => Relation.TransGen s.Child ⟨h⟩ ⟨c⟩ :=
    ⟨fun _ _ _ ab bc => bc.trans ab⟩
  have : Std.Irrefl fun c h : Fin s.size => Relation.TransGen s.Child ⟨h⟩ ⟨c⟩ :=
    ⟨fun h => acyclic ⟨h⟩⟩
  exact Finite.wellFounded_of_trans_of_irrefl _

/-- In a store without dangling handles and cycles, every allocated handle unfolds. -/
lemma Grounded.of_closed_acyclic {s : Store} (closed : s.Closed) (acyclic : s.Acyclic) :
    s.Grounded := by
  suffices all : ∀ i : Fin s.size, ∃ t, s.Unfolds (some ⟨i⟩) t from fun h lt => all ⟨h.index, lt⟩
  intro i
  induction i using acyclic.wellFounded.induction with
  | _ i ih =>
    obtain ⟨n, found⟩ := exists_node? (h := ⟨i⟩) i.2
    have slot : ∀ o, (∀ c, o = some c → s.Child ⟨i⟩ c) → ∃ t, s.Unfolds o t := by
      intro o child
      cases o with
      | none => exact ⟨.nil, .nil⟩
      | some c =>
        have step := child c rfl
        exact ih ⟨c.index, closed _ _ step⟩ (.single step)
    obtain ⟨l, ul⟩ := slot n.left fun c e => ⟨n, found, .inl e⟩
    obtain ⟨r, ur⟩ := slot n.right fun c e => ⟨n, found, .inr e⟩
    exact ⟨_, .node found ul ur⟩

/-- A store in which every allocated handle unfolds has neither dangling handles nor cycles. -/
lemma Grounded.closed_acyclic {s : Store} (g : s.Grounded) : s.Closed ∧ s.Acyclic := by
  constructor
  · intro h c child
    obtain ⟨n, found, _⟩ := id child
    obtain ⟨t, u⟩ := g h (index_lt_of_node? found)
    obtain ⟨tc, uc, _⟩ := u.child child
    exact uc.index_lt
  · intro h cycle
    obtain ⟨c, child, back⟩ := Relation.TransGen.head'_iff.1 cycle
    obtain ⟨n, found, _⟩ := id child
    obtain ⟨t, u⟩ := g h (index_lt_of_node? found)
    exact u.not_reaches child back

/-- Whether every allocated handle unfolds can be decided by unfolding all of them. -/
instance (s : Store) : Decidable s.Grounded :=
  decidable_of_iff (∀ i : Fin s.size, (s.tree (some ⟨i⟩)).isOk) <| by
    have ok : ∀ h : Handle, (s.tree (some h)).isOk ↔ ∃ t, s.Unfolds (some h) t := by
      intro h
      simp only [← tree_eq_ok_iff]
      cases s.tree (some h) with
      | error e => simp [Except.isOk, Except.toBool]
      | ok t => simp [Except.isOk, Except.toBool]
    constructor
    · exact fun all h lt => (ok h).1 (all ⟨h.index, lt⟩)
    · exact fun g i => (ok ⟨i⟩).2 (g ⟨i⟩ i.2)

end Store

end ExprOpt
