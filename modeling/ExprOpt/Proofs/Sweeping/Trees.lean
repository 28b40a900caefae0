import ExprOpt.Proofs.Sweeping.Confinement

/-!
# What a sweep does to trees

A sweep of a store carries out a sweep of trees: `Tree.sweep` applies a rule to every node, children
before their parent. The difference is that the store is overwritten meanwhile. A node that stands
below several parents is swept once per path, each time on what the sweeps before have left, and a
sweep that runs out of nodes leaves a tree of which some parts are swept and some are not.

Both are covered by one relation: `Advances` holds of two trees if the second has some of its subtrees
swept. A rule whose results need no second application cannot tell the two apart
(`Advances.sweep_eq`), so whatever a sweep meets on its second visit has the same outcome as on the
first. At any moment of a sweep the tree below any handle has advanced (`Store.Evolves`), and a sweep
that succeeds returns the swept tree (`sweepWithin_evolves`).
-/

namespace ExprOpt

/-- A rule that says what becomes of a node with the given children. -/
abbrev TreeRule := Kind → Tree Kind → Tree Kind → Tree Kind

/-- Applies a rule to every node, children before their parent. -/
def Tree.sweep (rule : TreeRule) : Tree Kind → Tree Kind
  | .nil => .nil
  | .node k l r => rule k (l.sweep rule) (r.sweep rule)

/-- A tree that the rule changes nowhere. -/
inductive Settled (rule : TreeRule) : Tree Kind → Prop where
  | nil :
    Settled rule .nil
  | node {k l r} :
    Settled rule l →
    Settled rule r →
    rule k l r = .node k l r →
    Settled rule (.node k l r)

/-- Some subtrees of the first tree are swept in the second one. -/
inductive Advances (rule : TreeRule) : Tree Kind → Tree Kind → Prop where
  | refl {t} :
    Advances rule t t
  | sweep {t} :
    Advances rule t (t.sweep rule)
  | node {k l l' r r'} :
    Advances rule l l' →
    Advances rule r r' →
    Advances rule (.node k l r) (.node k l' r')
  | trans {t t' t''} :
    Advances rule t t' →
    Advances rule t' t'' →
    Advances rule t t''

/-- A rule that makes no tree higher and whose results are settled. -/
structure TreeRule.Stable (rule : TreeRule) : Prop where
  height_le : ∀ k l r, (rule k l r).height ≤ (Tree.node k l r).height
  settled : ∀ k l r, Settled rule l → Settled rule r → Settled rule (rule k l r)

section

variable {rule : TreeRule}

/-- Sweeping leaves a settled tree alone. -/
lemma Settled.sweep_eq {t} (st : Settled rule t) : t.sweep rule = t := by
  induction st with
  | nil => rfl
  | node _ _ e ihl ihr => rw [Tree.sweep, ihl, ihr, e]

/-- A settled tree does not advance. -/
lemma Settled.eq_of_advances {t t'} (st : Settled rule t) (adv : Advances rule t t') : t' = t := by
  induction adv with
  | refl => rfl
  | sweep => exact st.sweep_eq
  | node _ _ ihl ihr =>
    cases st with
    | node sl sr _ => rw [ihl sl, ihr sr]
  | trans _ _ ih ih' =>
    have e := ih st
    subst e
    exact ih' st

/-- The empty tree does not advance. -/
lemma Advances.nil_inv {t} (adv : Advances rule .nil t) : t = .nil := Settled.nil.eq_of_advances adv

namespace TreeRule.Stable

/-- A swept tree is settled. -/
lemma settled_sweep (stable : rule.Stable) (t : Tree Kind) : Settled rule (t.sweep rule) := by
  induction t with
  | nil => exact .nil
  | node k l r ihl ihr => exact stable.settled k _ _ ihl ihr

/-- Sweeping twice is sweeping once. -/
lemma sweep_sweep (stable : rule.Stable) (t : Tree Kind) :
    (t.sweep rule).sweep rule = t.sweep rule :=
  (stable.settled_sweep t).sweep_eq

/-- Sweeping makes no tree higher. -/
lemma height_sweep_le (stable : rule.Stable) (t : Tree Kind) : (t.sweep rule).height ≤ t.height := by
  induction t with
  | nil => exact le_rfl
  | node k l r ihl ihr =>
    have le := stable.height_le k (l.sweep rule) (r.sweep rule)
    simp only [Tree.sweep, Tree.height] at le ⊢
    omega

end TreeRule.Stable

/-- A sweep has the same outcome on a tree that has advanced. -/
lemma Advances.sweep_eq {t t'} (stable : rule.Stable) (adv : Advances rule t t') :
    t'.sweep rule = t.sweep rule := by
  induction adv with
  | refl => rfl
  | sweep => exact stable.sweep_sweep _
  | node _ _ ihl ihr => rw [Tree.sweep, Tree.sweep, ihl, ihr]
  | trans _ _ ih ih' => rw [ih', ih]

/-- A tree that advances gets no higher. -/
lemma Advances.height_le {t t'} (stable : rule.Stable) (adv : Advances rule t t') :
    t'.height ≤ t.height := by
  induction adv with
  | refl => exact le_rfl
  | sweep => exact stable.height_sweep_le _
  | node _ _ ihl ihr =>
    simp only [Tree.height]
    omega
  | trans _ _ ih ih' => exact ih'.trans ih

end

/-- The tree that stands in the place of a node after an edit. -/
inductive Edit.Yields (s : Store) (n : Node) : Edit → Tree Kind → Prop where
  | keep {l r} :
    s.Unfolds n.left l →
    s.Unfolds n.right r →
    Yields s n .keep (.node n.kind l r)
  | swap {l r} :
    s.Unfolds n.left l →
    s.Unfolds n.right r →
    Yields s n .swap (.node n.kind r l)
  | reuse {h t} :
    s.Unfolds (some h) t →
    Yields s n (.reuse h) t
  | replace {m l r} :
    s.Unfolds m.left l →
    s.Unfolds m.right r →
    Yields s n (.replace m) (.node m.kind l r)

/-- The edits carry out the rule. -/
structure Implements (edit : Store → Node → Edit) (rule : TreeRule) : Prop where
  loc : Local edit
  stable : rule.Stable
  yields : ∀ (s : Store) (n : Node) (l r : Tree Kind),
    s.Unfolds n.left l → s.Unfolds n.right r → (edit s n).Yields s n (rule n.kind l r)

namespace Store

/-- The trees of one store have advanced in the other, and all new handles unfold. -/
structure Evolves (rule : TreeRule) (s s' : Store) : Prop where
  trees : ∀ g t, s.Unfolds g t → ∃ t', s'.Unfolds g t' ∧ Advances rule t t'
  fresh : ∀ g, s.size ≤ g.index → g.index < s'.size → ∃ t, s'.Unfolds (some g) t

variable {rule : TreeRule}

/-- The trees of a store that is left alone have not advanced. -/
lemma Evolves.refl {s : Store} : s.Evolves rule s where
  trees _ t u := ⟨t, u, .refl⟩
  fresh _ _ _ := by omega

/-- Trees may advance in several steps. -/
lemma Evolves.trans {s s' s'' : Store} (e : s.Evolves rule s') (e' : s'.Evolves rule s'') :
    s.Evolves rule s'' where
  trees g t u := by
    obtain ⟨t', u', adv⟩ := e.trees g t u
    obtain ⟨t'', u'', adv'⟩ := e'.trees g t' u'
    exact ⟨t'', u'', adv.trans adv'⟩
  fresh g ge lt := by
    by_cases mid : g.index < s'.size
    · obtain ⟨t, u⟩ := e.fresh g ge mid
      obtain ⟨t', u', _⟩ := e'.trees _ t u
      exact ⟨t', u'⟩
    · exact e'.fresh g (by omega) lt

/-- All handles of a grounded store stay grounded. -/
lemma Evolves.grounded {s s' : Store} (e : s.Evolves rule s') (g : s.Grounded) : s'.Grounded := by
  intro h lt
  by_cases old : h.index < s.size
  · obtain ⟨t, u⟩ := g h old
    obtain ⟨t', u', _⟩ := e.trees _ t u
    exact ⟨t', u'⟩
  · exact e.fresh h (by omega) lt

/-- A write below which the tree has advanced lets all trees advance. -/
lemma Evolves.write {s s' : Store} {h t t'} (same : ∀ g, g ≠ h → s'.node? g = s.node? g)
    (size : s'.size = s.size) (u : s.Unfolds (some h) t) (u' : s'.Unfolds (some h) t')
    (adv : Advances rule t t') : s.Evolves rule s' where
  trees g tg ug := by
    induction ug with
    | nil => exact ⟨.nil, .nil, .refl⟩
    | @node g n l r found ul ur ihl ihr =>
      by_cases eq : g = h
      · subst eq
        rw [← u.unique (.node found ul ur)]
        exact ⟨t', u', adv⟩
      · obtain ⟨l', ul', advl⟩ := ihl
        obtain ⟨r', ur', advr⟩ := ihr
        exact ⟨_, .node ((same g eq).trans found) ul' ur', .node advl advr⟩
  fresh g ge lt := by omega

/-- An allocation of a node whose children unfold. -/
lemma Evolves.push {s : Store} {n l r} (ul : s.Unfolds n.left l) (ur : s.Unfolds n.right r) :
    s.Evolves rule (s.push n) where
  trees g t u := ⟨t, u.extend extends_push, .refl⟩
  fresh g ge lt := by
    rw [size_push] at lt
    obtain ⟨i⟩ := g
    obtain rfl : i = s.size := by
      simp only at ge lt
      omega
    exact ⟨_, .node node?_push_end (ul.extend extends_push) (ur.extend extends_push)⟩

/-- A node whose slots unfold has the tree of both. -/
lemma Unfolds.of_slots {s : Store} {h n} {f : Side → Tree Kind} (found : s.node? h = some n)
    (u : ∀ side, s.Unfolds (n.slot side) (f side)) :
    s.Unfolds (some h) (.node n.kind (f .left) (f .right)) :=
  .node found (u .left) (u .right)

/-- The tree below one slot is lower than the tree of both. -/
lemma height_slot_lt {k : Kind} (f : Side → Tree Kind) (side : Side) :
    (f side).height < (Tree.node k (f .left) (f .right)).height := by
  cases side <;> simp only [Tree.height] <;> omega

end Store

variable {edit : Store → Node → Edit} {rule : TreeRule}

/-- What a sweep from `h` leaves behind: a swept tree if it succeeds, a store whose trees have advanced
in any case. It can only fail for lack of room. -/
def Sweeps (edit : Store → Node → Edit) (rule : TreeRule) (depth : Nat) : Prop :=
  ∀ h s t, s.Unfolds (some h) t → t.height ≤ depth →
    (sweepWithin edit depth h).Ensures s
      (fun r s' => s'.capacity = s.capacity ∧ s.Evolves rule s' ∧ s'.Unfolds (some r) (t.sweep rule))
      (fun e s' => e = .outOfNodes s.capacity ∧ s.Evolves rule s')

/-- The node at `h` after one of its slots has been dealt with: the tree below that slot is swept, and
the other one may have advanced. -/
structure SlotSwept (rule : TreeRule) (side : Side) (k : Kind) (f : Side → Tree Kind) (h : Handle)
    (s s' : Store) : Prop where
  capacity : s'.capacity = s.capacity
  evolves : s.Evolves rule s'
  slots : ∃ (n' : Node) (f' : Side → Tree Kind), s'.node? h = some n' ∧ n'.kind = k ∧
    (∀ i, s'.Unfolds (n'.slot i) (f' i)) ∧ f' side = (f side).sweep rule ∧
    ∀ i, Advances rule (f i) (f' i)

/-- Putting the swept child into its slot lets the tree below the node advance. -/
lemma SlotSwept.of_write {s s₁ : Store} {h c' n side} {f : Side → Tree Kind} (stable : rule.Stable)
    (u : ∀ i, s.Unfolds (n.slot i) (f i)) (found₁ : s₁.node? h = some n)
    (capacity : s₁.capacity = s.capacity) (evolves : s.Evolves rule s₁)
    (uc : s₁.Unfolds (some c') ((f side).sweep rule)) :
    SlotSwept rule side n.kind f h s (s₁.modifyNode h (·.withSlot side (some c'))) := by
  have moved : ∀ i, ∃ t', s₁.Unfolds (n.slot i) t' ∧ Advances rule (f i) t' :=
    fun i => evolves.trees _ _ (u i)
  choose f₁ u₁ adv using moved
  have uh := Store.Unfolds.of_slots found₁ u₁
  have same : ∀ g, g ≠ h →
      (s₁.modifyNode h (·.withSlot side (some c'))).node? g = s₁.node? g := by
    intro g ne
    rw [Store.node?_modifyNode, if_neg ne.symm]
  -- the swept child is no higher than the child it replaces, so the node is not below it
  have lower : ((f side).sweep rule).height < (Tree.node n.kind (f₁ .left) (f₁ .right)).height := by
    rw [← (adv side).sweep_eq stable]
    exact (stable.height_sweep_le _).trans_lt (Store.height_slot_lt f₁ side)
  have found' : (s₁.modifyNode h (·.withSlot side (some c'))).node? h =
      some (n.withSlot side (some c')) := by
    rw [Store.node?_modifyNode, if_pos rfl, found₁]
    rfl
  have u' : ∀ i, (s₁.modifyNode h (·.withSlot side (some c'))).Unfolds
      ((n.withSlot side (some c')).slot i) (Function.update f₁ side ((f side).sweep rule) i) := by
    intro i
    by_cases eq : i = side
    · subst eq
      rw [Node.slot_withSlot_self, Function.update_self]
      exact uc.write_lower same uh lower
    · rw [Node.slot_withSlot_of_ne eq, Function.update_of_ne eq]
      exact (u₁ i).write_lower same uh (Store.height_slot_lt f₁ i)
  have adv' : ∀ i, Advances rule (f₁ i) (Function.update f₁ side ((f side).sweep rule) i) := by
    intro i
    by_cases eq : i = side
    · subst eq
      rw [Function.update_self, ← (adv i).sweep_eq stable]
      exact .sweep
    · rw [Function.update_of_ne eq]
      exact .refl
  have uh' := Store.Unfolds.of_slots found' u'
  rw [Node.kind_withSlot] at uh'
  exact {
    capacity := capacity
    evolves := evolves.trans (.write same (Store.size_modifyNode _ _ _) uh uh'
      (.node (adv' .left) (adv' .right)))
    slots := ⟨_, _, found', Node.kind_withSlot, u', Function.update_self .., fun i =>
      (adv i).trans (adv' i)⟩ }

/-- Dealing with a child slot sweeps the tree below it, if sweeping the child does. -/
lemma sweepSlot_evolves {s : Store} {h n depth} {f : Side → Tree Kind} (imp : Implements edit rule)
    (ih : Sweeps edit rule depth) (side : Side) (found : s.node? h = some n)
    (u : ∀ i, s.Unfolds (n.slot i) (f i)) (le : (f side).height ≤ depth) :
    (sweepSlot edit depth h side).Ensures s (fun _ s' => SlotSwept rule side n.kind f h s s')
      (fun e s' => e = .outOfNodes s.capacity ∧ s.Evolves rule s') := by
  refine .node_bind found ?_
  cases e : n.slot side with
  | none =>
    have empty : f side = .nil := (e ▸ u side).nil_inv
    refine .pure ⟨rfl, .refl, n, f, found, rfl, u, ?_, fun _ => .refl⟩
    rw [empty]
    rfl
  | some c =>
    have out : ¬ s.Reaches c h :=
      (Store.Unfolds.of_slots found u).not_reaches (Store.child_iff.2 ⟨n, side, found, e⟩)
    have swept := ih c s (f side) (e ▸ u side) le
    refine .bind ((swept.and (sweepWithin_frame imp.loc found out)).weaken
      (fun _ _ => id) (fun _ _ => And.left)) ?_
    rintro c' s₁ ⟨⟨capacity, evolves, uc⟩, _, found₁⟩
    exact .modifyNode found₁ (.of_write imp.stable u found₁ capacity evolves uc)

/-- An edit puts its tree in the place of the node. -/
lemma Edit.Yields.perform {s : Store} {h n th t} {ed : Edit} (y : ed.Yields s n t)
    (found : s.node? h = some n) (uh : s.Unfolds (some h) th) (adv : Advances rule th t) :
    (ed.perform h).Ensures s
      (fun r s' => s'.capacity = s.capacity ∧ s.Evolves rule s' ∧ s'.Unfolds (some r) t)
      (fun e s' => e = .outOfNodes s.capacity ∧ s.Evolves rule s') := by
  cases y with
  | keep ul ur => exact .pure ⟨rfl, .refl, .node found ul ur⟩
  | reuse u => exact .pure ⟨rfl, .refl, u⟩
  | @replace m l r ul ur =>
    refine .alloc (fun _ => ⟨rfl, .push ul ur, ?_⟩) (fun _ => ⟨rfl, .refl⟩)
    exact .node Store.node?_push_end (ul.extend Store.extends_push) (ur.extend Store.extends_push)
  | @swap l r ul ur =>
    refine .bind (.modifyNode (Q := fun _ s' => s'.capacity = s.capacity ∧ s.Evolves rule s' ∧
      s'.Unfolds (some h) (.node n.kind r l)) found ?_) (fun _ _ post => .pure post)
    have same : ∀ g, g ≠ h → (s.modifyNode h
        fun n => { n with left := n.right, right := n.left }).node? g = s.node? g := by
      intro g ne
      rw [Store.node?_modifyNode, if_neg ne.symm]
    have high : th = .node n.kind l r := uh.unique (.node found ul ur)
    have ul' := ul.write_lower same uh (by rw [high]; simp only [Tree.height]; omega)
    have ur' := ur.write_lower same uh (by rw [high]; simp only [Tree.height]; omega)
    have found' : (s.modifyNode h fun n => { n with left := n.right, right := n.left }).node? h =
        some { n with left := n.right, right := n.left } := by
      rw [Store.node?_modifyNode, if_pos rfl, found]
      rfl
    have uh' := Store.Unfolds.node found' ur' ul'
    exact ⟨rfl, .write same (Store.size_modifyNode _ _ _) uh uh' adv, uh'⟩

/-- Edits that carry out a rule sweep trees of any height. -/
lemma sweepWithin_evolves (imp : Implements edit rule) (depth : Nat) : Sweeps edit rule depth := by
  induction depth with
  | zero =>
    intro h s t u le
    obtain ⟨n, l, r, _, _, _, rfl⟩ := u.inv
    simp only [Tree.height] at le
    omega
  | succ depth ih =>
    intro h s t u le
    obtain ⟨n, l, r, found, ul, ur, rfl⟩ := u.inv
    simp only [Tree.height] at le
    have uf : ∀ i, s.Unfolds (n.slot i) (Side.pick l r i) := by
      intro i
      cases i with
      | left => exact ul
      | right => exact ur
    rw [sweepWithin_succ]
    refine .bind (sweepSlot_evolves imp ih .left found uf (by simp only [Side.pick]; omega)) ?_
    rintro _ s₁ ⟨cap₁, ev₁, n₁, f₁, found₁, kind₁, u₁, swept₁, adv₁⟩
    have le₁ : (f₁ .right).height ≤ depth := by
      have := (adv₁ .right).height_le imp.stable
      simp only [Side.pick] at this
      omega
    refine .bind ((sweepSlot_evolves imp ih .right found₁ u₁ le₁).weaken (fun _ _ => id) ?_) ?_
    · rintro e s' ⟨rfl, ev⟩
      exact ⟨by rw [cap₁], ev₁.trans ev⟩
    rintro _ s₂ ⟨cap₂, ev₂, n₂, f₂, found₂, kind₂, u₂, swept₂, adv₂⟩
    -- the left tree was swept before the right one, and a swept tree does not advance
    have left : f₂ .left = l.sweep rule :=
      (swept₁ ▸ imp.stable.settled_sweep l).eq_of_advances (adv₂ .left) |>.trans swept₁
    have right : f₂ .right = r.sweep rule := by
      rw [swept₂, (adv₁ .right).sweep_eq imp.stable]
      rfl
    refine .node_bind found₂ (.get_bind ?_)
    have y := imp.yields s₂ n₂ _ _ (u₂ .left) (u₂ .right)
    rw [left, right, kind₂, kind₁] at y
    have uh := Store.Unfolds.of_slots found₂ u₂
    rw [left, right, kind₂, kind₁] at uh
    have adv : Advances rule (.node n.kind (l.sweep rule) (r.sweep rule))
        (rule n.kind (l.sweep rule) (r.sweep rule)) := by
      have := @Advances.sweep rule (.node n.kind (l.sweep rule) (r.sweep rule))
      rwa [Tree.sweep, imp.stable.sweep_sweep, imp.stable.sweep_sweep] at this
    refine (y.perform found₂ uh adv).weaken ?_ ?_
    · rintro r s' ⟨cap, ev, ur⟩
      exact ⟨by rw [cap, cap₂, cap₁], ev₁.trans (ev₂.trans ev), ur⟩
    · rintro e s' ⟨rfl, ev⟩
      exact ⟨by rw [cap₂, cap₁], ev₁.trans (ev₂.trans ev)⟩

/-- A sweep returns the swept tree or fails for lack of room, and lets all trees of the store advance
in either case. -/
theorem sweep_evolves (imp : Implements edit rule) {s : Store} {h t} (u : s.Unfolds (some h) t) :
    (sweep edit h).Ensures s
      (fun r s' => s'.capacity = s.capacity ∧ s.Evolves rule s' ∧ s'.Unfolds (some r) (t.sweep rule))
      (fun e s' => e = .outOfNodes s.capacity ∧ s.Evolves rule s') := by
  refine .get_bind (sweepWithin_evolves imp _ h s t u ?_)
  have := u.height_le
  simp only [Store.bound]
  omega

end ExprOpt
