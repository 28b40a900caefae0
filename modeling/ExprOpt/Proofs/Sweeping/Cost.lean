import ExprOpt.Proofs.FoldedTree
import ExprOpt.Proofs.HoistedNodes
import ExprOpt.Proofs.SimplifiedTree

/-!
# What a sweep costs

A sweep allocates at most one node for each node of the tree that its rule changes (`sweep_size_le`). A
node that stands below several parents is changed on the first visit only, because afterwards it is
settled, so the count is one of the tree and sharing does not add to it.

Folding takes a node out of the tree wherever it changes one (`Folding.changes_add_size_le`).
Simplification changes operators with two operands only, which are less than half of all nodes
(`Peephole.two_mul_changes_lt`), and makes no tree larger (`Peephole.size_sweep_le`).
-/

namespace ExprOpt

/-- The number of nodes that the rule changes, once what is below them is swept. -/
def Tree.changes (rule : TreeRule) : Tree Kind → Nat
  | .nil => 0
  | .node k l r =>
    l.changes rule + r.changes rule +
      if rule k (l.sweep rule) (r.sweep rule) = .node k (l.sweep rule) (r.sweep rule) then 0 else 1

/-- The edits leave a node alone where the rule does. -/
def Abstains (edit : Store → Node → Edit) (rule : TreeRule) : Prop :=
  ∀ (s : Store) (n : Node) (l r : Tree Kind), s.Unfolds n.left l → s.Unfolds n.right r →
    rule n.kind l r = .node n.kind l r → edit s n = .keep

section

variable {edit : Store → Node → Edit} {rule : TreeRule}

/-- There is nothing to change in a settled tree. -/
lemma Settled.changes_eq_zero {t : Tree Kind} (st : Settled rule t) : t.changes rule = 0 := by
  induction st with
  | nil => rfl
  | node sl sr e ihl ihr => rw [Tree.changes, ihl, ihr, sl.sweep_eq, sr.sweep_eq, if_pos e]

/-- There is no more to change in a tree that has advanced. -/
lemma Advances.changes_le {t t' : Tree Kind} (stable : rule.Stable) (adv : Advances rule t t') :
    t'.changes rule ≤ t.changes rule := by
  induction adv with
  | refl => exact le_rfl
  | sweep =>
    rw [(stable.settled_sweep _).changes_eq_zero]
    exact Nat.zero_le _
  | node advl advr ihl ihr =>
    rw [Tree.changes, Tree.changes, advl.sweep_eq stable, advr.sweep_eq stable]
    exact Nat.add_le_add_right (Nat.add_le_add ihl ihr) _
  | trans _ _ ih ih' => exact ih'.trans ih

/-- An edit allocates one node at most, and none if it keeps the node. -/
lemma Edit.perform_size_le {s : Store} {h : Handle} {n : Node} (ed : Edit)
    (cost : Nat) (found : s.node? h = some n) (free : cost = 0 → ed = .keep) :
    (ed.perform h).Ensures s (fun _ s' => s'.size ≤ s.size + cost) (fun _ _ => True) := by
  cases ed with
  | keep => exact .pure (Nat.le_add_right _ _)
  | reuse child => exact .pure (Nat.le_add_right _ _)
  | replace m =>
    refine .alloc (fun _ => ?_) fun _ => trivial
    have pos : cost ≠ 0 := fun e => nomatch free e
    rw [Store.size_push]
    omega
  | swap =>
    refine .bind (.modifyNode (Q := fun _ s' => s'.size ≤ s.size + cost) found ?_)
      fun _ _ post => .pure post
    rw [Store.size_modifyNode]
    exact Nat.le_add_right _ _

/-- Sweeps from a handle allocate at most one node for each change to the tree below it. -/
def Costs (edit : Store → Node → Edit) (rule : TreeRule) (depth : Nat) : Prop :=
  ∀ h s t, s.Unfolds (some h) t → t.height ≤ depth →
    (sweepWithin edit depth h).Ensures s (fun _ s' => s'.size ≤ s.size + t.changes rule)
      (fun _ _ => True)

/-- Dealing with a child slot costs what sweeping the child does. -/
lemma sweepSlot_size_le {s : Store} {h : Handle} {n : Node} {depth : Nat} {f : Side → Tree Kind}
    (imp : Implements edit rule) (ih : Costs edit rule depth) (side : Side)
    (found : s.node? h = some n) (u : ∀ i, s.Unfolds (n.slot i) (f i)) (le : (f side).height ≤ depth) :
    (sweepSlot edit depth h side).Ensures s (fun _ s' => s'.size ≤ s.size + (f side).changes rule)
      (fun _ _ => True) := by
  refine .node_bind found ?_
  cases e : n.slot side with
  | none => exact .pure (Nat.le_add_right _ _)
  | some c =>
    have out : ¬ s.Reaches c h :=
      (Store.Unfolds.of_slots found u).not_reaches (Store.child_iff.2 ⟨n, side, found, e⟩)
    refine .bind (((ih c s (f side) (e ▸ u side) le).and (sweepWithin_frame imp.loc found out)).weaken
      (fun _ _ => id) (fun _ _ _ => trivial)) ?_
    intro c' s₁ ⟨size, _, found₁⟩
    refine .modifyNode found₁ ?_
    rw [Store.size_modifyNode]
    exact size

/-- A sweep allocates at most one node for each change, by induction on its depth. -/
lemma sweepWithin_size_le (imp : Implements edit rule) (abstains : Abstains edit rule) (depth : Nat) :
    Costs edit rule depth := by
  induction depth with
  | zero =>
    intro h s t u le
    obtain ⟨n, l, r, -, -, -, rfl⟩ := u.inv
    exact absurd le (Nat.not_succ_le_zero _)
  | succ depth ih =>
    intro h s t u le
    obtain ⟨n, l, r, found, ul, ur, rfl⟩ := u.inv
    simp only [Tree.height] at le
    have uf : ∀ i, s.Unfolds (n.slot i) (Side.pick l r i) := by
      intro i
      cases i with
      | left => exact ul
      | right => exact ur
    have sweeps := sweepWithin_evolves imp depth
    have lowl : (Side.pick l r .left).height ≤ depth := by
      simp only [Side.pick]
      omega
    rw [sweepWithin_succ]
    refine .bind (((sweepSlot_evolves imp sweeps .left found uf lowl).and
      (sweepSlot_size_le imp ih .left found uf lowl)).weaken (fun _ _ => id) fun _ _ _ => trivial) ?_
    intro _ s₁ both
    obtain ⟨swept, size₁⟩ := both
    obtain ⟨n₁, f₁, found₁, kind₁, u₁, swept₁, adv₁⟩ := swept.slots
    have lowr : (f₁ .right).height ≤ depth := by
      have le' : (f₁ .right).height ≤ r.height := (adv₁ .right).height_le imp.stable
      omega
    refine .bind (((sweepSlot_evolves imp sweeps .right found₁ u₁ lowr).and
      (sweepSlot_size_le imp ih .right found₁ u₁ lowr)).weaken (fun _ _ => id) fun _ _ _ => trivial) ?_
    intro _ s₂ both
    obtain ⟨swept, size₂⟩ := both
    obtain ⟨n₂, f₂, found₂, kind₂, u₂, swept₂, adv₂⟩ := swept.slots
    -- What the left sweep has done to the right tree was paid for there.
    have right₁ : (f₁ .right).changes rule ≤ r.changes rule := (adv₁ .right).changes_le imp.stable
    have left : f₂ .left = l.sweep rule :=
      (swept₁ ▸ imp.stable.settled_sweep l).eq_of_advances (adv₂ .left) |>.trans swept₁
    have right : f₂ .right = r.sweep rule := by
      rw [swept₂, (adv₁ .right).sweep_eq imp.stable]
      rfl
    refine .node_bind found₂ (.get_bind ?_)
    have ul₂ : s₂.Unfolds n₂.left (l.sweep rule) := left ▸ u₂ .left
    have ur₂ : s₂.Unfolds n₂.right (r.sweep rule) := right ▸ u₂ .right
    refine ((edit s₂ n₂).perform_size_le (if rule n.kind (l.sweep rule) (r.sweep rule) =
      .node n.kind (l.sweep rule) (r.sweep rule) then 0 else 1) found₂ ?_).weaken ?_ fun _ _ => id
    · intro free
      refine abstains s₂ n₂ _ _ ul₂ ur₂ ?_
      rw [kind₂, kind₁]
      by_contra changed
      rw [if_neg changed] at free
      cases free
    · intro x s' size
      simp only [Side.pick] at size₁
      rw [Tree.changes]
      omega

/-- A sweep allocates at most one node for each change to the tree. -/
theorem sweep_size_le (imp : Implements edit rule) (abstains : Abstains edit rule) {s : Store}
    {h : Handle} {t : Tree Kind} (u : s.Unfolds (some h) t) :
    (sweep edit h).Ensures s (fun _ s' => s'.size ≤ s.size + t.changes rule) (fun _ _ => True) := by
  refine .get_bind (sweepWithin_size_le imp abstains _ h s t u ?_)
  have := u.height_le
  simp only [Store.bound]
  omega

end

namespace Folding

/-- An operand does not make up the whole node, so it stands for it only if it is missing. -/
lemma eq_nil_of_operandOr {t node : Tree Kind} (smaller : t.size < node.size)
    (e : operandOr t node = node) : t = .nil := by
  cases t with
  | nil => rfl
  | node => exact absurd (congrArg Tree.size e) smaller.ne

/-- The verdict on an operator that stays as it is says so, or it is for an operand that is missing. -/
lemma verdict_of_rule_eq {op : Op} {l r : Tree Kind} (same : rule (.op op) l r = .node (.op op) l r) :
    verdict op l r = .unchanged ∨ verdict op l r = .leftOperand ∧ l = .nil ∨
      verdict op l r = .rightOperand ∧ r = .nil := by
  rw [rule_op] at same
  cases v : verdict op l r with
  | unchanged => exact .inl rfl
  | leftOperand =>
    rw [v] at same
    exact .inr (.inl ⟨rfl, eq_nil_of_operandOr (by simp only [Tree.size]; omega) same⟩)
  | rightOperand =>
    rw [v] at same
    exact .inr (.inr ⟨rfl, eq_nil_of_operandOr (by simp only [Tree.size]; omega) same⟩)
  | constant c =>
    rw [v] at same
    cases same

/-- Folding leaves a node alone where its rule on trees does. -/
lemma abstains : Abstains edit rule := by
  intro s n l r ul ur same
  cases kind : n.kind with
  | const v => simp only [edit, kind]
  | var x => simp only [edit, kind]
  | op op =>
    have missing {o : Option Handle} (u : s.Unfolds o .nil) : Edit.child o = .keep := by
      cases u
      rfl
    rw [kind] at same
    rw [edit_op kind ul ur]
    rcases verdict_of_rule_eq same with v | ⟨v, rfl⟩ | ⟨v, rfl⟩
    · rw [v, Verdict.edit]
    · rw [v, Verdict.edit, missing ul]
    · rw [v, Verdict.edit, missing ur]

/-- A node that is folded takes no more room than its operands. -/
lemma size_rule_le {k : Kind} {l r : Tree Kind} (changed : rule k l r ≠ .node k l r) :
    (rule k l r).size ≤ l.size + r.size := by
  rcases rule_cases k l r with e | e | e | ⟨v, e⟩
  · exact absurd e changed
  · rw [e]
    exact Nat.le_add_right _ _
  · rw [e]
    exact Nat.le_add_left _ _
  · rw [e]
    -- There is an operand, because an operator without one is not folded.
    cases l with
    | node =>
      simp only [Tree.constant, Tree.size]
      omega
    | nil =>
      cases r with
      | node =>
        simp only [Tree.constant, Tree.size]
        omega
      | nil =>
        refine absurd ?_ changed
        cases k with
        | op op => cases op <;> rfl
        | const => rfl
        | var => rfl

/-- Folding pays for what it changes with nodes that it takes out of the tree. -/
lemma changes_add_size_le (t : Tree Kind) : t.changes rule + (t.sweep rule).size ≤ t.size := by
  induction t with
  | nil => exact le_rfl
  | node k l r ihl ihr =>
    simp only [Tree.changes, Tree.sweep, Tree.size]
    split
    · next same =>
      rw [same, Tree.size]
      omega
    · next changed =>
      have le := size_rule_le changed
      omega

end Folding

namespace Peephole

/-- Simplification leaves a node alone where its rule on trees does. -/
lemma abstains : Abstains edit rule := by
  intro s n l r ul ur same
  rcases idle_or_op n.kind l r with idle | ⟨op, kind, nl, nr⟩
  · exact idle.edit_eq ul ur
  · cases left : n.left with
    | none => exact absurd (left ▸ ul).nil_inv nl
    | some hl =>
      cases right : n.right with
      | none => exact absurd (right ▸ ur).nil_inv nr
      | some hr =>
        rw [left] at ul
        rw [right] at ur
        rw [kind, rule_op nl nr] at same
        simp only [edit, kind, left, right]
        -- Each change but the swap brings in another operator or leaves an operand out.
        have swapped (e : r = l) : ¬ (leaf l && !leaf r) := by
          rw [e]
          simp
        cases op with
        | div => rfl
        | assign => rfl
        | seq => rfl
        | sub =>
          simp only [binary, binaryRule, isConst_eq ul, decide_eq_true_eq] at same ⊢
          split_ifs at same ⊢ with zero
          · injection same with _ _ e
            exact absurd e.symm nr
          · rfl
        | mul =>
          simp only [binary, binaryRule, isLeaf_eq ul, isLeaf_eq ur, isConst_eq ur] at same ⊢
          split_ifs at same ⊢ with swap double
          · injection same with _ e
            exact absurd swap (swapped e)
          · cases same
          · rfl
        | add =>
          simp only [binary, binaryRule, isLeaf_eq ul, isLeaf_eq ur] at same ⊢
          split_ifs at same ⊢ with swap
          · injection same with _ e
            exact absurd swap (swapped e)
          · rcases negated?_eq ur with ⟨e, -⟩ | ⟨x, tx, -, e, -, -⟩
            · rw [e]
            · rw [e] at same
              cases same

/-- A change is made to an operator with two operands, so there are more nodes than twice the
changes. -/
lemma two_mul_changes_lt {t : Tree Kind} (ne : t ≠ .nil) : 2 * t.changes rule < t.size := by
  induction t with
  | nil => exact absurd rfl ne
  | node k l r ihl ihr =>
    have le (t : Tree Kind) (ih : t ≠ .nil → 2 * t.changes rule < t.size) :
        2 * t.changes rule ≤ t.size ∧ (t ≠ .nil → 2 * t.changes rule < t.size) := by
      refine ⟨?_, ih⟩
      cases t with
      | nil => exact le_rfl
      | node => exact (ih nofun).le
    obtain ⟨lel, ltl⟩ := le l ihl
    obtain ⟨ler, ltr⟩ := le r ihr
    simp only [Tree.changes, Tree.size]
    split
    · omega
    · next changed =>
      rcases eq_node_or_change k (l.sweep rule) (r.sweep rule) with e | ⟨op, -, nl, nr, -⟩
      · exact absurd e changed
      · have lt := ltl fun e => nl (by rw [e]; rfl)
        have lt' := ltr fun e => nr (by rw [e]; rfl)
        omega

/-- A leaf in a simplified tree is a leaf of the tree before. -/
lemma size_of_leaf_sweep {t : Tree Kind} (w : t.WellFormed) (isLeaf : leaf (t.sweep rule)) :
    (t.sweep rule).size = 1 := by
  cases t with
  | nil => cases isLeaf
  | node k l r =>
    rw [Tree.sweep] at isLeaf ⊢
    rcases eq_node_or_change k (l.sweep rule) (r.sweep rule) with e | ⟨op, -, -, -, change⟩
    · rw [e] at isLeaf ⊢
      obtain ⟨admits, -, -⟩ := w
      cases k with
      | op op => cases isLeaf
      | const v =>
        simp only [Kind.admits, Bool.not_not, Bool.and_eq_true] at admits
        cases l <;> cases r <;> simp_all [Tree.isNil, Tree.sweep, Tree.size]
      | var x =>
        simp only [Kind.admits, Bool.not_not, Bool.and_eq_true] at admits
        cases l <;> cases r <;> simp_all [Tree.isNil, Tree.sweep, Tree.size]
    · generalize rule k (l.sweep rule) (r.sweep rule) = t at change isLeaf
      generalize r.sweep rule = r' at change
      cases change <;> cases isLeaf

/-- Simplification makes no tree larger. Doubling takes a leaf twice, but then it has only one node. -/
lemma size_sweep_le {t : Tree Kind} (w : t.WellFormed) : (t.sweep rule).size ≤ t.size := by
  induction t with
  | nil => exact le_rfl
  | node k l r ihl ihr =>
    obtain ⟨-, wl, wr⟩ := w
    have lel := ihl wl
    have ler := ihr wr
    have single := size_of_leaf_sweep wl
    rw [Tree.sweep, Tree.size]
    rcases eq_node_or_change k (l.sweep rule) (r.sweep rule) with e | ⟨op, -, nl, nr, change⟩
    · rw [e, Tree.size]
      omega
    · generalize rule k (l.sweep rule) (r.sweep rule) = t at change
      generalize l.sweep rule = l' at *
      generalize r.sweep rule = r' at *
      cases change with
      | swap =>
        rw [Tree.size]
        omega
      | subtract =>
        simp only [Tree.size] at ler ⊢
        omega
      | negate =>
        simp only [Tree.size]
        omega
      | double isLeaf =>
        have one := single isLeaf
        cases r' with
        | nil => exact absurd rfl nr
        | node =>
          simp only [Tree.size] at ler ⊢
          omega

end Peephole

end ExprOpt
