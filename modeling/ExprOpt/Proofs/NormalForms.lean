import ExprOpt.Proofs.CompiledRoom
import ExprOpt.Proofs.Sweeping.Form
import ExprOpt.Proofs.Sweeping.Rest

/-!
# Normal forms

What folding and simplification leave has none of the forms that they are for, and a second run of either
pass changes nothing (`fold_finishes`, `simplify_finishes`).

A node is there to be folded (`Folding.Reducible`) if it is a negated constant, if it has a value because
both of its operands are constants, or if one of them is a constant that makes the operator superfluous:
it leaves any other operand as it is, or it decides the result whatever the other operand is. Which
constants these are is a matter of arithmetic (`Op.neutral_left` and the lemmas after it). A node is there
to be simplified (`Peephole.Improvable`) if it matches one of the four changes.

Simplification brings back nothing that could be folded (`Peephole.settled_folding`), so a fold that comes
first is not needed again (`simplify_leaves_folded`).
-/

namespace ExprOpt

/-! ### Constants that make an operator superfluous -/

namespace Op

variable {op : Op} {a b v : Int64}

/-- Only zero in a sum and one in a product leave everything on their right as it is. -/
lemma neutral_left (law : ∀ b, op.apply a b = some b) : op = .add ∧ a = 0 ∨ op = .mul ∧ a = 1 := by
  have zero := law 0
  have one := law 1
  cases op with
  | add => exact .inl ⟨rfl, by simpa using zero⟩
  | mul => exact .inr ⟨rfl, by simpa using one⟩
  | sub =>
    have first : a = 0 := by simpa using zero
    rw [first] at one
    cases one
  | div => simp at zero
  | assign => cases zero
  | seq => cases zero

/-- Only zero in a sum or a difference and one in a product or a quotient leave everything on their left
as it is. -/
lemma neutral_right (law : ∀ a, op.apply a b = some a) :
    (op = .add ∨ op = .sub) ∧ b = 0 ∨ (op = .mul ∨ op = .div) ∧ b = 1 := by
  have zero := law 0
  have one := law 1
  have self := law b
  cases op with
  | add => exact .inl ⟨.inl rfl, by simpa using zero⟩
  | sub =>
    rw [apply_sub, Int64.sub_self] at self
    exact .inl ⟨.inr rfl, (Option.some.inj self).symm⟩
  | mul => exact .inr ⟨.inl rfl, by simpa using one⟩
  | div =>
    rw [apply_div] at self
    split_ifs at self with divisor
    rw [Int64.div_self, if_neg divisor] at self
    exact .inr ⟨.inr rfl, (Option.some.inj self).symm⟩
  | assign => cases zero
  | seq => cases zero

/-- Only a first factor of zero decides the result. -/
lemma decisive_left (law : ∀ b, op.apply a b = some v) : op = .mul ∧ a = 0 := by
  have zero := law 0
  have one := law 1
  cases op with
  | add =>
    have same : a + 0 = a + 1 := Option.some.inj (by rw [← apply_add, ← apply_add, zero, one])
    cases Int64.add_right_inj a |>.1 same
  | sub =>
    have same : a - 0 = a - 1 := Option.some.inj (by rw [← apply_sub, ← apply_sub, zero, one])
    cases Int64.sub_right_inj a |>.1 same
  | mul =>
    have same : a * 0 = a * 1 := Option.some.inj (by rw [← apply_mul, ← apply_mul, zero, one])
    rw [Int64.mul_zero, Int64.mul_one] at same
    exact ⟨rfl, same.symm⟩
  | div => simp at zero
  | assign => cases zero
  | seq => cases zero

/-- Only a second factor of zero decides the result. -/
lemma decisive_right (law : ∀ a, op.apply a b = some v) : op = .mul ∧ b = 0 := by
  have zero := law 0
  have one := law 1
  have self := law b
  cases op with
  | add =>
    have same : 0 + b = 1 + b := Option.some.inj (by rw [← apply_add, ← apply_add, zero, one])
    cases Int64.add_left_inj b |>.1 same
  | sub =>
    have same : 0 - b = 1 - b := Option.some.inj (by rw [← apply_sub, ← apply_sub, zero, one])
    cases Int64.sub_left_inj b |>.1 same
  | mul =>
    have same : 0 * b = 1 * b := Option.some.inj (by rw [← apply_mul, ← apply_mul, zero, one])
    rw [Int64.zero_mul, Int64.one_mul] at same
    exact ⟨rfl, same.symm⟩
  | div =>
    -- The quotients of zero and of the divisor itself differ.
    rw [apply_div] at zero self
    split_ifs at zero self with divisor
    rw [Int64.div_self, if_neg divisor] at self
    rw [Int64.zero_div] at zero
    cases zero.trans self.symm
  | assign => cases zero
  | seq => cases zero

end Op

/-! ### Nothing left to fold -/

namespace Folding

/-- A node that can be folded: a negated constant, two constants that have a value together, or a constant
that leaves the other operand as it is or decides the result. -/
inductive Reducible (s : Store) : Node → Prop where
  | negation {h v} :
    const? s h = some v →
    Reducible s (.negation h)
  | constants {op l r a b v} :
    const? s l = some a →
    const? s r = some b →
    op.apply a b = some v →
    Reducible s (.binary op l r)
  | neutralLeft {op l r a} :
    const? s l = some a →
    (∀ b, op.apply a b = some b) →
    Reducible s (.binary op l r)
  | neutralRight {op l r b} :
    const? s r = some b →
    (∀ a, op.apply a b = some a) →
    Reducible s (.binary op l r)
  | decisiveLeft {op l r a v} :
    const? s l = some a →
    (∀ b, op.apply a b = some v) →
    Reducible s (.binary op l r)
  | decisiveRight {op l r b v} :
    const? s r = some b →
    (∀ a, op.apply a b = some v) →
    Reducible s (.binary op l r)

/-- Folding computes what the operators compute. -/
lemma evaluate_eq_apply (op : Op) (a b : Int64) : evaluate op a b = op.apply a b := by
  cases op with
  | add => rw [evaluate, Op.apply_add]
  | sub => rw [evaluate, Op.apply_sub]
  | mul => rw [evaluate, Op.apply_mul]
  | div => rw [evaluate, Op.apply_div]
  | assign => rfl
  | seq => rfl

/-- A node between two operands stays only if the verdict on it says so. -/
lemma binary_of_keep {s : Store} {op : Op} {l r : Handle} (kept : edit s (.binary op l r) = .keep) :
    binary op (const? s l) (const? s r) = .unchanged := by
  have edits : edit s (.binary op l r) =
      (binary op (const? s l) (const? s r)).edit (.binary op l r) := by
    simp only [edit, Node.binary, Option.bind_some]
    cases binary op (const? s l) (const? s r) <;> rfl
  rw [edits] at kept
  generalize binary op (const? s l) (const? s r) = v at kept
  cases v with
  | unchanged => rfl
  | leftOperand => cases kept
  | rightOperand => cases kept
  | constant c => cases kept

/-- Where folding finds nothing to do, no identity applies. -/
lemma identity_of_binary {op : Op} {l r : Option Int64} (same : binary op l r = .unchanged) :
    identity op l r = .unchanged := by
  unfold binary at same
  split at same
  · split at same
    · cases same
    · exact same
  · exact same

/-- Every node that can be folded is edited. -/
lemma Reducible.edit_ne_keep {s : Store} {n : Node} (red : Reducible s n) : edit s n ≠ .keep := by
  intro kept
  cases red with
  | negation operand => simp [edit, Node.negation, operand, unary] at kept
  | constants left right value =>
    have same := binary_of_keep kept
    simp only [left, right, binary, evaluate_eq_apply, value] at same
    cases same
  | neutralLeft left law =>
    have same := identity_of_binary (binary_of_keep kept)
    rw [left] at same
    rcases Op.neutral_left law with ⟨rfl, rfl⟩ | ⟨rfl, rfl⟩
    · simp [identity] at same
    · simp [identity] at same
  | neutralRight right law =>
    have same := identity_of_binary (binary_of_keep kept)
    rw [right] at same
    rcases Op.neutral_right law with ⟨rfl | rfl, rfl⟩ | ⟨rfl | rfl, rfl⟩ <;>
      simp only [identity] at same <;> split_ifs at same
  | decisiveLeft left law =>
    have same := identity_of_binary (binary_of_keep kept)
    obtain ⟨rfl, rfl⟩ := Op.decisive_left law
    rw [left] at same
    simp only [identity, true_or] at same
    split_ifs at same
  | decisiveRight right law =>
    have same := identity_of_binary (binary_of_keep kept)
    obtain ⟨rfl, rfl⟩ := Op.decisive_right law
    rw [right] at same
    simp only [identity, or_true] at same
    split_ifs at same

/-- Folding is done below a handle if its rule leaves the tree there alone. -/
lemma done {s : Store} {h : Handle} {t : Tree Kind} (st : Settled rule t) (u : s.Unfolds (some h) t) :
    s.Done Build.fold Reducible h :=
  .of_settled abstains (fun _ red => red.edit_ne_keep) st u

end Folding

/-! ### Nothing left to simplify -/

namespace Peephole

/-- A node that one of the four changes applies to, each taken by itself, in whatever order they are
tried. -/
inductive Improvable (s : Store) : Node → Prop where
  | swap {op l r} :
    op = .add ∨ op = .mul →
    isLeaf s l →
    ¬ isLeaf s r →
    Improvable s (.binary op l r)
  | subtract {l r m} :
    s.node? r = some m →
    m.isNegation →
    Improvable s (.binary .add l r)
  | negate {l r} :
    isConst s 0 l →
    Improvable s (.binary .sub l r)
  | double {l r} :
    isLeaf s l →
    isConst s 2 r →
    Improvable s (.binary .mul l r)

/-- A negation in a well-formed store has an operand. -/
lemma exists_negated {s : Store} {h : Handle} {m : Node} (w : s.WellFormed) (found : s.node? h = some m)
    (neg : m.isNegation) : ∃ x, negated? s h = some x := by
  have admits := w h m found
  have shape : m.kind = .op .sub ∧ m.right = none := by simpa [Node.isNegation] using neg
  rw [Node.WellFormed, shape.1, shape.2] at admits
  obtain ⟨x, left⟩ : ∃ x, m.left = some x := by
    simpa [Kind.admits, Option.isSome_iff_exists] using admits
  refine ⟨x, ?_⟩
  simp only [negated?, found]
  rw [if_pos neg, left]

/-- Every node that one of the changes applies to is edited. -/
lemma Improvable.edit_ne_keep {s : Store} {n : Node} (w : s.WellFormed) (imp : Improvable s n) :
    edit s n ≠ .keep := by
  intro kept
  cases imp with
  | swap which left right =>
    rcases which with rfl | rfl
    · simp [edit, Node.binary, binary, left, right] at kept
    · simp [edit, Node.binary, binary, left, right] at kept
  | subtract found neg =>
    obtain ⟨x, operand⟩ := exists_negated w found neg
    simp only [edit, Node.binary, binary, operand] at kept
    split_ifs at kept
  | negate zero => simp [edit, Node.binary, binary, zero] at kept
  | double left two =>
    have both : (isLeaf s _ && isConst s 2 _) = true := Bool.and_eq_true_iff.2 ⟨left, two⟩
    simp only [edit, Node.binary, binary, both, if_true] at kept
    split_ifs at kept

/-- Simplification is done below a handle of a well-formed store if its rule leaves the tree there
alone. -/
lemma done {s : Store} {h : Handle} {t : Tree Kind} (w : s.WellFormed) (st : Settled rule t)
    (u : s.Unfolds (some h) t) : s.Done Build.simplify Improvable h :=
  .of_settled abstains (fun _ imp => imp.edit_ne_keep w) st u

end Peephole

/-! ### Folding before simplification -/

namespace Folding

open ExprOpt.Tree (constant?)

variable {op : Op} {k : Kind} {l r l' r' : Tree Kind}

/-- Folding looks at nothing but the constants of a binary node. -/
lemma verdict_of_ne (nr : r ≠ .nil) : verdict op l r = binary op (constant? l) (constant? r) := by
  cases r with
  | nil => exact absurd rfl nr
  | node => rfl

/-- An operator between two operands is folded unless the verdict is that it stays. -/
lemma verdict_eq_unchanged (nl : l ≠ .nil) (nr : r ≠ .nil)
    (same : rule (.op op) l r = .node (.op op) l r) : verdict op l r = .unchanged := by
  rcases verdict_of_rule_eq same with v | ⟨-, e⟩ | ⟨-, e⟩
  · exact v
  · exact absurd e nl
  · exact absurd e nr

/-- Where there is nothing to fold, the node is kept over its operands. -/
lemma rule_of_unchanged (same : verdict op l r = .unchanged) :
    rule (.op op) l r = .node (.op op) l r := by
  rw [rule_op, same]
  rfl

/-- There is nothing to fold where no operand is a constant. -/
lemma rule_of_no_constants (left : constant? l = none) (right : constant? r = none) :
    rule (.op op) l r = .node (.op op) l r := by
  apply rule_of_unchanged
  cases r with
  | nil => cases op <;> simp only [verdict, left, unary]
  | node => cases op <;> simp [verdict, left, right, binary, identity]

/-- One of two constants that have a value together is missing in a node that is not folded. -/
lemma not_both_constants {a b v : Int64} (same : rule (.op op) l r = .node (.op op) l r)
    (left : constant? l = some a) (right : constant? r = some b) : op.apply a b ≠ some v := by
  intro value
  have nr : r ≠ .nil := by
    rintro rfl
    cases right
  rw [rule_op, verdict_of_ne nr, left, right, binary, evaluate_eq_apply, value] at same
  cases same

/-- The order of the operands of a sum or a product plays no part in whether it is folded. -/
lemma binary_comm {x y : Option Int64} (which : op = .add ∨ op = .mul)
    (same : binary op x y = .unchanged) : binary op y x = .unchanged := by
  rcases which with rfl | rfl <;> cases x <;> cases y <;> grind [binary, evaluate, identity]

/-- Whether a node is folded depends on which operands it has and on which of them are constants. -/
lemma rule_congr (same : rule k l r = .node k l r) (cl : constant? l' = constant? l)
    (cr : constant? r' = constant? r) (el : l' = .nil ↔ l = .nil) (er : r' = .nil ↔ r = .nil) :
    rule k l' r' = .node k l' r' := by
  cases k with
  | const v => rfl
  | var x => rfl
  | op op =>
    have verdicts : verdict op l' r' = verdict op l r := by
      by_cases nr : r = .nil
      · rw [er.2 nr, nr, verdict, verdict, cl]
      · rw [verdict_of_ne nr, verdict_of_ne (mt er.1 nr), cl, cr]
    rw [rule_op, verdicts]
    rcases verdict_of_rule_eq same with v | ⟨v, e⟩ | ⟨v, e⟩
    · rw [v, Verdict.tree]
    · rw [v, Verdict.tree, el.2 e, operandOr]
    · rw [v, Verdict.tree, er.2 e, operandOr]

end Folding

namespace Peephole

variable {op : Op} {l r t : Tree Kind}

/-- What simplification makes of a node is a node again, and a constant only if it was this constant. -/
lemma exists_rule_eq (k : Kind) (l r : Tree Kind) :
    ∃ k' l' r', rule k l r = .node k' l' r' ∧
      (Tree.node k' l' r').constant? = (Tree.node k l r).constant? := by
  rcases eq_node_or_change k l r with e | ⟨op, rfl, -, -, change⟩
  · exact ⟨k, l, r, e, rfl⟩
  · generalize rule (.op op) l r = t at change
    cases change <;> exact ⟨_, _, _, rfl, rfl⟩

/-- Simplification makes no constants and unmakes none. -/
lemma constant?_sweep (t : Tree Kind) : (t.sweep rule).constant? = t.constant? := by
  cases t with
  | nil => rfl
  | node k l r =>
    obtain ⟨k', l', r', e, same⟩ := exists_rule_eq k (l.sweep rule) (r.sweep rule)
    rw [Tree.sweep, e, same]
    cases k <;> rfl

/-- Simplification leaves nothing only of nothing. -/
lemma sweep_eq_nil {t : Tree Kind} : t.sweep rule = .nil ↔ t = .nil := by
  cases t with
  | nil => exact iff_of_true rfl rfl
  | node k l r =>
    obtain ⟨k', l', r', e, -⟩ := exists_rule_eq k (l.sweep rule) (r.sweep rule)
    rw [Tree.sweep, e]
    simp only [reduceCtorEq]

/-- The result of a change to a node that is folded is folded, too. -/
lemma Change.settled_folding (c : Change op l r t) (nl : l ≠ .nil) (nr : r ≠ .nil)
    (sl : Settled Folding.rule l) (sr : Settled Folding.rule r)
    (same : Folding.rule (.op op) l r = .node (.op op) l r) : Settled Folding.rule t := by
  cases c with
  | swap which =>
    refine .node sr sl (Folding.rule_of_unchanged ?_)
    have stays := Folding.verdict_eq_unchanged nl nr same
    rw [Folding.verdict_of_ne nr] at stays
    rw [Folding.verdict_of_ne nl]
    exact Folding.binary_comm which stays
  | @subtract l x notLeaf nx =>
    -- A negation that is not folded has no constant below it.
    cases sr with
    | node sx _ negation =>
      refine .node sl sx (Folding.rule_of_no_constants (constant?_of_not_leaf notLeaf) ?_)
      cases e : x.constant? with
      | none => rfl
      | some v =>
        rw [Folding.rule_op, Folding.verdict, e, Folding.unary] at negation
        cases negation
  | @negate l r zero =>
    refine .node sr .nil (Folding.rule_of_no_constants ?_ rfl)
    cases e : r.constant? with
    | none => rfl
    | some v => exact absurd (Op.apply_sub 0 v) (Folding.not_both_constants same zero e)
  | @double l r _ two =>
    have unknown : l.constant? = none := by
      cases e : l.constant? with
      | none => rfl
      | some v => exact absurd (Op.apply_mul v 2) (Folding.not_both_constants same e two)
    exact .node sl sl (Folding.rule_of_no_constants unknown unknown)

/-- Simplifying a folded tree leaves a folded tree. -/
lemma settled_folding (st : Settled Folding.rule t) : Settled Folding.rule (t.sweep rule) := by
  induction st with
  | nil => exact .nil
  | @node k l r _ _ same ihl ihr =>
    have same' := Folding.rule_congr same (constant?_sweep l) (constant?_sweep r) sweep_eq_nil sweep_eq_nil
    rw [Tree.sweep]
    rcases eq_node_or_change k (l.sweep rule) (r.sweep rule) with e | ⟨op, rfl, nl, nr, change⟩
    · rw [e]
      exact .node ihl ihr same'
    · exact change.settled_folding nl nr ihl ihr same'

end Peephole

/-! ### The passes -/

section

variable {s s₁ s₂ : Store} {h r₁ r₂ : Handle}

/-- In a store without dangling handles and cycles, folding leaves nothing to fold below the handle that it
returns. Another run of it returns the same handle and changes nothing, be the store full or not. -/
theorem fold_finishes (closed : s.Closed) (acyclic : s.Acyclic)
    (ran : (Build.fold h).run s = .ok r₁ s₁) : s₁.Done Build.fold Folding.Reducible r₁ := by
  obtain ⟨t, -, u⟩ := sweep_swept Folding.implements closed acyclic ran
  exact Folding.done (Folding.stable.settled_sweep t) u

/-- A store with `3 * (y + (0 - x)) / (x * 2) + y` at 12, where `y` is `x * (1 + 1)`. It has a sum to compute
and a place for each of the four changes, and the node of `y` stands in two places. -/
def everyChange : Store where
  nodes := #[.var 'x', .const 1, .binary .add ⟨1⟩ ⟨1⟩, .binary .mul ⟨0⟩ ⟨2⟩, .const 0,
    .binary .sub ⟨4⟩ ⟨0⟩, .binary .add ⟨3⟩ ⟨5⟩, .const 3, .binary .mul ⟨7⟩ ⟨6⟩, .const 2,
    .binary .mul ⟨0⟩ ⟨9⟩, .binary .div ⟨8⟩ ⟨10⟩, .binary .add ⟨11⟩ ⟨3⟩]
  capacity := 19

/-- Folding fills the store with the sum that is computed, and is done. -/
theorem fold_finishes_everyChange :
    ∃ r s', (Build.fold ⟨12⟩).run { everyChange with capacity := 14 } = .ok r s' ∧
      s'.size = s'.capacity ∧ s'.Done Build.fold Folding.Reducible r := by
  have ground : ({ everyChange with capacity := 14 } : Store).Grounded := by decide
  obtain ⟨closed, acyclic⟩ := ground.closed_acyclic
  obtain ⟨r, s', ran, full⟩ : ∃ r s',
      (Build.fold ⟨12⟩).run { everyChange with capacity := 14 } = .ok r s' ∧ s'.size = s'.capacity :=
    ⟨_, _, rfl, rfl⟩
  exact ⟨r, s', ran, full, fold_finishes closed acyclic ran⟩

/-- In a well-formed store without dangling handles and cycles, simplification leaves no node below the
handle that it returns to which one of its four changes applies. Another run of it returns the same handle
and changes nothing, be the store full or not. -/
theorem simplify_finishes (w : s.WellFormed) (closed : s.Closed) (acyclic : s.Acyclic)
    (ran : (Build.simplify h).run s = .ok r₁ s₁) : s₁.Done Build.simplify Peephole.Improvable r₁ := by
  obtain ⟨t, -, u⟩ := sweep_swept Peephole.implements closed acyclic ran
  have w₁ := ((sweep_reshapes Peephole.tidy h s).of_ok ran).keeps_wellFormed w
  exact Peephole.done w₁ (Peephole.stable.settled_sweep t) u

/-- Simplification fills the store with a negation, a difference and a sum, and is done. -/
theorem simplify_finishes_everyChange :
    ∃ r s', (Build.simplify ⟨12⟩).run { everyChange with capacity := 16 } = .ok r s' ∧
      s'.size = s'.capacity ∧ s'.Done Build.simplify Peephole.Improvable r := by
  have ground : ({ everyChange with capacity := 16 } : Store).Grounded := by decide
  obtain ⟨closed, acyclic⟩ := ground.closed_acyclic
  have w : ({ everyChange with capacity := 16 } : Store).WellFormed := by decide
  obtain ⟨r, s', ran, full⟩ : ∃ r s',
      (Build.simplify ⟨12⟩).run { everyChange with capacity := 16 } = .ok r s' ∧ s'.size = s'.capacity :=
    ⟨_, _, rfl, rfl⟩
  exact ⟨r, s', ran, full, simplify_finishes w closed acyclic ran⟩

/-- Simplification of what folding has returned leaves nothing to fold. -/
lemma fold_simplify_done {t : Tree Kind} (u : s.Unfolds (some h) t) :
    (Build.fold h >>= Build.simplify).Ensures s (fun r s' => s'.Done Build.fold Folding.Reducible r)
      (fun _ _ => True) := by
  refine .bind ((sweep_evolves Folding.implements u).weaken (fun _ _ => id) fun _ _ _ => trivial) ?_
  intro r₁ s₁ ⟨_, _, u₁⟩
  refine (sweep_evolves Peephole.implements u₁).weaken ?_ fun _ _ _ => trivial
  intro r₂ s₂ ⟨_, _, u₂⟩
  exact Folding.done (Peephole.settled_folding (Folding.stable.settled_sweep t)) u₂

/-- Reading an expression, folding it and simplifying it leaves nothing to fold. -/
lemma pipeline_fold_simplify (source : String) (capacity : Nat) :
    (Build.pipeline source [.fold, .simplify]).Ensures { capacity }
      (fun r s' => s'.Done Build.fold Folding.Reducible r) (fun _ _ => True) := by
  have empty : ({ capacity } : Store).Grounded := fun h lt => absurd lt (Nat.not_lt_zero _)
  refine .bind ((Build.parse_stacks source { capacity }).weaken (fun _ _ => id) fun _ _ _ => trivial) ?_
  intro root s ⟨stacked, allocated⟩
  obtain ⟨t, u⟩ := stacked.keeps_grounded empty root allocated
  have passes : [Pass.fold, .simplify].foldlM (fun root (pass : Pass) => pass.run root) root =
      Build.fold root >>= Build.simplify := by
    simp [Pass.run]
  rw [passes]
  exact fold_simplify_done u

/-- If folding and then simplification of what it returns succeed in a store without dangling handles and
cycles, there is nothing to fold below the handle that comes out, and folding again returns that handle and
changes nothing. So it is after a compilation with these two passes, which run in this order. -/
theorem simplify_leaves_folded :
    (∀ {s s₁ s₂ : Store} {h r₁ r₂ : Handle}, s.Closed → s.Acyclic →
      (Build.fold h).run s = .ok r₁ s₁ → (Build.simplify r₁).run s₁ = .ok r₂ s₂ →
        s₂.Done Build.fold Folding.Reducible r₂) ∧
    ∀ {source : String} {options : Options} {c : Compiled},
      compile source { options with fold := true, simplify := true, hoist := false } = .ok c →
        c.store.Done Build.fold Folding.Reducible c.root := by
  constructor
  · intro s s₁ s₂ h r₁ r₂ closed acyclic folded simplified
    obtain ⟨t, u, -⟩ := sweep_swept Folding.implements closed acyclic folded
    refine (fold_simplify_done u).of_ok ?_
    rw [Build.run_bind_of_ok folded, simplified]
  · intro source options c ok
    obtain ⟨ran, -⟩ := compile_eq_ok_iff.1 ok
    exact (pipeline_fold_simplify source options.capacity).of_ok ran

end

/-- Both passes together fill the store, and there is nothing to fold in what they leave. Nor is there in
what compilation makes of a sum with something for each pass. -/
theorem simplify_leaves_folded_everyChange :
    (∃ r₁ s₁ r₂ s₂, (Build.fold ⟨12⟩).run everyChange = .ok r₁ s₁ ∧
      (Build.simplify r₁).run s₁ = .ok r₂ s₂ ∧ s₂.size = s₂.capacity ∧
      s₂.Done Build.fold Folding.Reducible r₂) ∧
    ∃ c, compile "y*(1+1)+(0-x)" { hoist := false } = .ok c ∧
      c.store.Done Build.fold Folding.Reducible c.root := by
  constructor
  · have ground : everyChange.Grounded := by decide
    obtain ⟨closed, acyclic⟩ := ground.closed_acyclic
    obtain ⟨r₁, s₁, r₂, s₂, folded, simplified, full⟩ : ∃ r₁ s₁ r₂ s₂,
        (Build.fold ⟨12⟩).run everyChange = .ok r₁ s₁ ∧ (Build.simplify r₁).run s₁ = .ok r₂ s₂ ∧
          s₂.size = s₂.capacity :=
      ⟨_, _, _, _, rfl, rfl, rfl⟩
    exact ⟨r₁, s₁, r₂, s₂, folded, simplified, full,
      simplify_leaves_folded.1 closed acyclic folded simplified⟩
  · have fine : (compile "y*(1+1)+(0-x)" { hoist := false }).isOk = true := by decide +kernel
    cases ok : compile "y*(1+1)+(0-x)" { hoist := false } with
    | error e =>
      rw [ok] at fine
      cases fine
    | ok c => exact ⟨c, rfl, @simplify_leaves_folded.2 _ {} c ok⟩

end ExprOpt
