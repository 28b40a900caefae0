import ExprOpt.Proofs.NormalForms

/-!
# How small the passes make a tree

Folding takes a node out of the tree for each one that it allocates, and simplification leaves no more nodes
than there were, however the nodes are shared (`passes_never_enlarge`). A constant expression ends up as
small as can be: if it has a value, then folding leaves that constant and nothing else (`fold_evaluates`).
-/

namespace ExprOpt

variable {s s' : Store} {h r : Handle} {t : Tree Kind}

/-- A handle whose tree is a constant is that of a node without children. -/
lemma Store.Unfolds.node?_of_constant {v : Int64} (u : s.Unfolds (some h) (.constant v)) :
    s.node? h = some (.const v) := by
  obtain ⟨n, l, r, found, ul, ur, e⟩ := u.inv
  injection e with kind left right
  have noLeft : n.left.isSome = false := by rw [ul.isSome_eq, ← left]; rfl
  have noRight : n.right.isSome = false := by rw [ur.isSome_eq, ← right]; rfl
  rw [found]
  obtain ⟨k, left, right⟩ := n
  cases kind
  cases left <;> cases noLeft
  cases right <;> cases noRight
  rfl

namespace Folding

/-- An operator between two constants is folded to its result, whatever the constants are. -/
lemma rule_constants {op : Op} {a b v : Int64} (value : op.apply a b = some v) :
    rule (.op op) (.constant a) (.constant b) = .constant v := by
  rw [rule_op, verdict_of_ne (r := .constant b) nofun]
  show (binary op (some a) (some b)).tree op _ _ = _
  rw [binary, evaluate_eq_apply, value]
  rfl

/-- A tree without variables that has a value is folded to it. -/
lemma sweep_eq_constant {env : Env} {v : Int64} (ar : Arithmetic t) (ground : ∀ x, ¬ t.Mentions x)
    (value : t.value env = some v) : t.sweep rule = .constant v := by
  induction ar generalizing v with
  | const =>
    cases value
    rfl
  | @var x => exact absurd (.inl rfl) (ground x)
  | negation operand ih =>
    rw [operand.value_negation] at value
    obtain ⟨a, below, rfl⟩ := Option.map_eq_some_iff.1 value
    rw [Tree.sweep, ih (fun x m => ground x (.inr (.inl m))) below]
    rfl
  | binary arith left right ihl ihr =>
    -- Both operands have a value, because the operator needs them.
    rw [Arithmetic.value_binary arith left right] at value
    obtain ⟨a, onLeft, value⟩ := Option.bind_eq_some_iff.1 value
    obtain ⟨b, onRight, value⟩ := Option.bind_eq_some_iff.1 value
    rw [Tree.sweep, ihl (fun x m => ground x (.inr (.inl m))) onLeft,
      ihr (fun x m => ground x (.inr (.inr m))) onRight]
    exact rule_constants value

end Folding

/-- Folding an arithmetical expression without variables that has a value leaves a single node without
children, the constant of that value. -/
theorem fold_evaluates {env : Env} {v : Int64} (below : s.tree (some h) = .ok t) (arith : Arithmetic t)
    (ground : ∀ x, ¬ t.Mentions x) (value : t.value env = some v)
    (ran : (Build.fold h).run s = .ok r s') : s'.node? r = some (.const v) := by
  have u := Store.tree_eq_ok_iff.1 below
  obtain ⟨_, _, folded⟩ := (sweep_evolves Folding.implements u).of_ok ran
  rw [Folding.sweep_eq_constant arith ground value] at folded
  exact folded.node?_of_constant

/-- A store with `-m / (-1) + (-1)` at 4, where `m` is the least of all constants and the node of `-1` stands
in two places. -/
def leastConstant : Store where
  nodes := #[.const Int64.minValue, .negation ⟨0⟩, .const (-1), .binary .div ⟨1⟩ ⟨2⟩, .binary .add ⟨3⟩ ⟨2⟩]
  capacity := 8

/-- The negation, the quotient and the sum all wrap around, and what is left is the greatest constant. -/
theorem fold_evaluates_leastConstant : ∃ t r s', leastConstant.tree (some ⟨4⟩) = .ok t ∧
    t.value (fun _ => 0) = some Int64.maxValue ∧ (Build.fold ⟨4⟩).run leastConstant = .ok r s' ∧
    s'.node? r = some (.const Int64.maxValue) := by
  let quotient : Tree Kind :=
    .node (.op .div) (.node (.op .sub) (.constant Int64.minValue) .nil) (.constant (-1))
  let t : Tree Kind := .node (.op .add) quotient (.constant (-1))
  have below : leastConstant.tree (some ⟨4⟩) = .ok t := rfl
  have arith : Arithmetic t := .binary rfl (.binary rfl (.negation .const) .const) .const
  have ground : ∀ x, ¬ t.Mentions x := by simp [t, quotient, Tree.Mentions, Tree.constant]
  have value : t.value (fun _ => 0) = some Int64.maxValue := by decide +kernel
  obtain ⟨r, s', ran⟩ : ∃ r s', (Build.fold ⟨4⟩).run leastConstant = .ok r s' := ⟨_, _, rfl⟩
  exact ⟨t, r, s', below, value, ran, fold_evaluates below arith ground value ran⟩

/-- In a well-formed store without dangling handles and cycles, neither pass makes a tree larger. The nodes
that folding has allocated and those of the tree that it returns are together no more than the tree had
before, and simplification returns a tree with no more nodes than the one that it was given. -/
theorem passes_never_enlarge (w : s.WellFormed) (closed : s.Closed) (acyclic : s.Acyclic) :
    (∀ {r s'}, (Build.fold h).run s = .ok r s' →
      ∃ before new after, s.treeSize (some h) = .ok before ∧ s'.size = s.size + new ∧
        s'.treeSize (some r) = .ok after ∧ new + after ≤ before) ∧
    ∀ {r s'}, (Build.simplify h).run s = .ok r s' →
      ∃ before after, s.treeSize (some h) = .ok before ∧ s'.treeSize (some r) = .ok after ∧
        after ≤ before := by
  constructor
  · intro r s' ran
    obtain ⟨t, u, u'⟩ := sweep_swept Folding.implements closed acyclic ran
    have widens := ((sweep_reshapes Folding.tidy h s).of_ok ran).toWidens
    have cost := (sweep_size_le Folding.implements Folding.abstains u).of_ok ran
    have paid := Folding.changes_add_size_le t
    obtain ⟨new, grown⟩ := Nat.exists_eq_add_of_le widens.size_ge
    refine ⟨_, new, _, Store.treeSize_eq u, grown, Store.treeSize_eq u', ?_⟩
    have changes : new ≤ t.changes Folding.rule := by
      rw [grown] at cost
      exact Nat.le_of_add_le_add_left cost
    exact (Nat.add_le_add_right changes _).trans paid
  · intro r s' ran
    obtain ⟨t, u, u'⟩ := sweep_swept Peephole.implements closed acyclic ran
    exact ⟨_, _, Store.treeSize_eq u, Store.treeSize_eq u', Peephole.size_sweep_le (u.wellFormed w)⟩

/-- Both passes allocate nodes in an expression of which some nodes stand in several places, and both return a
smaller one. -/
theorem passes_never_enlarge_everyChange :
    (∃ r s' before new after, (Build.fold ⟨12⟩).run everyChange = .ok r s' ∧
      everyChange.treeSize (some ⟨12⟩) = .ok before ∧ s'.size = everyChange.size + new ∧
      s'.treeSize (some r) = .ok after ∧ new + after ≤ before) ∧
    ∃ r s' before after, (Build.simplify ⟨12⟩).run everyChange = .ok r s' ∧
      everyChange.treeSize (some ⟨12⟩) = .ok before ∧ s'.treeSize (some r) = .ok after ∧
      after ≤ before := by
  have ground : everyChange.Grounded := by decide
  obtain ⟨closed, acyclic⟩ := ground.closed_acyclic
  obtain ⟨fold, simplify⟩ := @passes_never_enlarge everyChange ⟨12⟩ (by decide) closed acyclic
  obtain ⟨r₁, s₁, folded⟩ : ∃ r s', (Build.fold ⟨12⟩).run everyChange = .ok r s' := ⟨_, _, rfl⟩
  obtain ⟨r₂, s₂, simplified⟩ : ∃ r s', (Build.simplify ⟨12⟩).run everyChange = .ok r s' := ⟨_, _, rfl⟩
  obtain ⟨before, new, after, paid⟩ := fold folded
  obtain ⟨before', after', smaller⟩ := simplify simplified
  exact ⟨⟨r₁, s₁, before, new, after, folded, paid⟩, r₂, s₂, before', after', simplified, smaller⟩

end ExprOpt
