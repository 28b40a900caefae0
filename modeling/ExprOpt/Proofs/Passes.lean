import ExprOpt.Proofs.FoldedTree
import ExprOpt.Proofs.SimplifiedTree

/-!
# The passes over a store

What folding and simplification of a store amount to. The tree that they return is a function of the
tree that they are given (`passes_refine_trees`). Whether they succeed or run out of nodes on the way,
every node of the store that stands for an arithmetical expression goes on to stand for the same one
(`passes_keep_meaning`).
-/

namespace ExprOpt

/-- A constant or a variable without children, an arithmetical operator with two, or a negation. -/
def Node.Arithmetic (n : Node) : Prop :=
  match n.kind with
  | .const _ => n.left = none ∧ n.right = none
  | .var _ => n.left = none ∧ n.right = none
  | .op op => op.isArithmetic ∧ n.left.isSome ∧ (n.right.isSome ∨ op = .sub)

namespace Store

/-- Only arithmetical nodes can be reached from a handle. -/
def ArithmeticFrom (s : Store) (h : Handle) : Prop :=
  ∀ g n, s.Reaches h g → s.node? g = some n → n.Arithmetic

/-- Both handles have trees below them, and the value of the second one stands for the value of the
first, whatever the values of the variables are. -/
def Means (R : Option Int64 → Option Int64 → Prop) (s : Store) (h : Handle) (s' : Store)
    (h' : Handle) : Prop :=
  ∃ t t', s.tree (some h) = .ok t ∧ s'.tree (some h') = .ok t' ∧
    ∀ env, R (t.value env) (t'.value env)

/-- Every node that stands for an arithmetical expression keeps its meaning. -/
def KeepsMeaning (R : Option Int64 → Option Int64 → Prop) (s s' : Store) : Prop :=
  ∀ g, g.index < s.size → s.ArithmeticFrom g → s.Means R g s' g

/-- The tree below a handle is arithmetical if only arithmetical nodes can be reached. -/
lemma Unfolds.arithmetic {s : Store} {o t} (u : s.Unfolds o t) :
    ∀ h, o = some h → s.ArithmeticFrom h → Arithmetic t := by
  induction u with
  | nil => exact fun h e => nomatch e
  | @node h n l r found ul ur ihl ihr =>
    rintro _ ⟨⟩ from_h
    have node := from_h h n .refl found
    have below : ∀ c, s.Child h c → s.ArithmeticFrom c :=
      fun c child g m path => from_h g m (.head child path)
    have left : ∀ c, n.left = some c → Arithmetic l :=
      fun c e => ihl c e (below c ⟨n, found, .inl e⟩)
    have right : ∀ c, n.right = some c → Arithmetic r :=
      fun c e => ihr c e (below c ⟨n, found, .inr e⟩)
    cases kind : n.kind with
    | const v =>
      simp only [Node.Arithmetic, kind] at node
      cases (node.1 ▸ ul).nil_inv
      cases (node.2 ▸ ur).nil_inv
      exact .const
    | var x =>
      simp only [Node.Arithmetic, kind] at node
      cases (node.1 ▸ ul).nil_inv
      cases (node.2 ▸ ur).nil_inv
      exact .var
    | op op =>
      simp only [Node.Arithmetic, kind, Option.isSome_iff_exists] at node
      obtain ⟨arith, ⟨cl, el⟩, operands⟩ := node
      cases er : n.right with
      | some cr => exact .binary arith (left cl el) (right cr er)
      | none =>
        rcases operands with ⟨cr, er'⟩ | rfl
        · rw [er] at er'
          cases er'
        · cases (er ▸ ur).nil_inv
          exact .negation (left cl el)

/-- A store whose trees have advanced by a sound rule keeps the meaning of its nodes. -/
lemma Evolves.keepsMeaning {R : Option Int64 → Option Int64 → Prop} {rule : TreeRule} {s s' : Store}
    (agree : Agreement R) (sound : rule.Sound R) (ground : s.Grounded) (e : s.Evolves rule s') :
    s.KeepsMeaning R s' := by
  intro g lt arith
  obtain ⟨t, u⟩ := ground g lt
  obtain ⟨t', u', adv⟩ := e.trees _ t u
  obtain ⟨_, value⟩ := adv.keeps agree sound (u.arithmetic g rfl arith)
  exact ⟨t, t', tree_eq_ok_iff.2 u, tree_eq_ok_iff.2 u', value⟩

end Store

/-- A sweep by edits that carry out a sound rule keeps the meaning of all nodes, and returns a node that
means what the first one did. -/
lemma sweep_keepsMeaning {edit : Store → Node → Edit} {rule : TreeRule}
    {R : Option Int64 → Option Int64 → Prop} {s : Store} {h : Handle} (imp : Implements edit rule)
    (agree : Agreement R) (sound : rule.Sound R) (ground : s.Grounded) (lt : h.index < s.size) :
    (sweep edit h).Ensures s
      (fun r s' => s.KeepsMeaning R s' ∧ (s.ArithmeticFrom h → s.Means R h s' r))
      (fun e s' => e = .outOfNodes s.capacity ∧ s.KeepsMeaning R s') := by
  obtain ⟨t, u⟩ := ground h lt
  refine (sweep_evolves imp u).weaken ?_ ?_
  · rintro r s' ⟨_, evolves, ur⟩
    refine ⟨evolves.keepsMeaning agree sound ground, fun arith => ?_⟩
    obtain ⟨_, value⟩ := sound.sweep agree t (u.arithmetic h rfl arith)
    exact ⟨t, _, Store.tree_eq_ok_iff.2 u, Store.tree_eq_ok_iff.2 ur, value⟩
  · rintro e s' ⟨rfl, evolves⟩
    exact ⟨rfl, evolves.keepsMeaning agree sound ground⟩

/-- In a store without dangling handles and cycles, simplification from any node keeps the value of
every arithmetical node or its lack of one, and folding keeps the value of every arithmetical node that
has one. Both do so even if they run out of nodes, the only way in which they can fail. What they return
has the meaning of the node that they started from. -/
theorem passes_keep_meaning {s : Store} {h : Handle} (closed : s.Closed) (acyclic : s.Acyclic)
    (allocated : h.index < s.size) :
    (Build.simplify h).Ensures s
        (fun r s' => s.KeepsMeaning Same s' ∧ (s.ArithmeticFrom h → s.Means Same h s' r))
        (fun e s' => e = .outOfNodes s.capacity ∧ s.KeepsMeaning Same s') ∧
      (Build.fold h).Ensures s
        (fun r s' => s.KeepsMeaning Defined s' ∧ (s.ArithmeticFrom h → s.Means Defined h s' r))
        (fun e s' => e = .outOfNodes s.capacity ∧ s.KeepsMeaning Defined s') := by
  have ground := Store.Grounded.of_closed_acyclic closed acyclic
  constructor
  · exact sweep_keepsMeaning Peephole.implements .same Peephole.sound ground allocated
  · exact sweep_keepsMeaning Folding.implements .defined Folding.sound ground allocated

/-- A store with `y = x * (1 + 1)` at 3 and `0 - y + y` at 6, in which `y` and `1` are shared and for
which one more node may be allocated. -/
def twoOfAKind : Store where
  nodes := #[.var 'x', .const 1, .binary .add ⟨1⟩ ⟨1⟩, .binary .mul ⟨0⟩ ⟨2⟩, .const 0,
    .binary .sub ⟨4⟩ ⟨3⟩, .binary .add ⟨5⟩ ⟨3⟩]
  capacity := 8

/-- Both passes succeed on the shared expression, and the node in the middle keeps its meaning although
it is not where they start. -/
theorem passes_keep_meaning_twoOfAKind :
    (∃ r s', (Build.simplify ⟨6⟩).run twoOfAKind = .ok r s' ∧ twoOfAKind.KeepsMeaning Same s') ∧
      ∃ r s', (Build.fold ⟨6⟩).run twoOfAKind = .ok r s' ∧ twoOfAKind.KeepsMeaning Defined s' := by
  have ground : twoOfAKind.Grounded := by decide
  obtain ⟨closed, acyclic⟩ := ground.closed_acyclic
  obtain ⟨simplified, folded⟩ := passes_keep_meaning (h := ⟨6⟩) closed acyclic (by decide)
  exact ⟨⟨_, _, rfl, (simplified.of_ok rfl).1⟩, ⟨_, _, rfl, (folded.of_ok rfl).1⟩⟩

/-- In a store without dangling handles and cycles there is a tree below every allocated handle.
Wherever there is a tree below a handle, folding and simplification fail for lack of room or return the
folded and the simplified tree, however the nodes of that tree are shared and whatever else is in the
store. -/
theorem passes_refine_trees (s : Store) (h : Handle) :
    (s.Closed → s.Acyclic → h.index < s.size → ∃ t, s.tree (some h) = .ok t) ∧
      ∀ t, s.tree (some h) = .ok t →
        (Build.fold h).Ensures s (fun r s' => s'.tree (some r) = .ok (Folding.tree t))
            (fun e _ => e = .outOfNodes s.capacity) ∧
          (Build.simplify h).Ensures s (fun r s' => s'.tree (some r) = .ok (Peephole.tree t))
            (fun e _ => e = .outOfNodes s.capacity) := by
  constructor
  · intro closed acyclic lt
    obtain ⟨t, u⟩ := Store.Grounded.of_closed_acyclic closed acyclic h lt
    exact ⟨t, Store.tree_eq_ok_iff.2 u⟩
  · intro t below
    have u := Store.tree_eq_ok_iff.1 below
    constructor
    · exact (sweep_evolves Folding.implements u).weaken
        (fun r s' post => Store.tree_eq_ok_iff.2 post.2.2) (fun e s' post => post.1)
    · exact (sweep_evolves Peephole.implements u).weaken
        (fun r s' post => Store.tree_eq_ok_iff.2 post.2.2) (fun e s' post => post.1)

/-- Folding the shared expression computes the shared sum once and meets the result again on the second
path. -/
theorem passes_refine_trees_twoOfAKind :
    ∃ t r s', twoOfAKind.tree (some ⟨6⟩) = .ok t ∧ (Build.fold ⟨6⟩).run twoOfAKind = .ok r s' ∧
      s'.tree (some r) = .ok (Folding.tree t) ∧ s'.size = 8 :=
  ⟨_, _, _, rfl, rfl, (((passes_refine_trees twoOfAKind ⟨6⟩).2 _ rfl).1.of_ok rfl), rfl⟩

end ExprOpt
