import ExprOpt.Peephole
import ExprOpt.Proofs.Sweeping.Meaning

/-!
# Simplifying trees

Peephole simplification as a rule on trees, `Peephole.rule`, and the proof that the edits of the store
carry it out (`Peephole.implements`). In a simplified tree no change is left to be made, and it has a
value exactly where the tree that it came from has one, namely the same (`Peephole.sound`).
-/

namespace ExprOpt.Peephole

/-- Whether a constant or a variable is at the root of a tree. -/
def leaf : Tree Kind → Bool
  | .nil => false
  | .node k _ _ => k.isLeaf

/-- The operand of a tree that is a negation. -/
def operand? : Tree Kind → Option (Tree Kind)
  | .node (.op .sub) (.node k l r) .nil => some (.node k l r)
  | _ => none

/-- The tree that an operator between two operands is simplified to. -/
def binaryRule (op : Op) (l r : Tree Kind) : Tree Kind :=
  match op with
  | .add =>
    if leaf l && !leaf r then .node (.op .add) r l
    else match operand? r with
      | some x => .node (.op .sub) l x
      | none => .node (.op .add) l r
  | .sub => if l.constant? = some 0 then .node (.op .sub) r .nil else .node (.op .sub) l r
  | .mul =>
    if leaf l && !leaf r then .node (.op .mul) r l
    else if leaf l && r.constant? = some 2 then .node (.op .add) l l
    else .node (.op .mul) l r
  | op => .node (.op op) l r

/-- The tree that a node with simplified children is simplified to. -/
def rule : TreeRule := fun k l r =>
  match k, l, r with
  | .op op, .node kl ll lr, .node kr rl rr => binaryRule op (.node kl ll lr) (.node kr rl rr)
  | k, l, r => .node k l r

/-- Simplifies a tree. -/
def tree (t : Tree Kind) : Tree Kind := t.sweep rule

/-- The rule applies to operators between two operands. -/
lemma rule_op {op l r} (nl : l ≠ .nil) (nr : r ≠ .nil) : rule (.op op) l r = binaryRule op l r := by
  cases l with
  | nil => exact absurd rfl nl
  | node =>
    cases r with
    | nil => exact absurd rfl nr
    | node => rfl

/-- The ways in which the rule can change an operator between two operands, each with what it takes. -/
inductive Change : Op → Tree Kind → Tree Kind → Tree Kind → Prop where
  | swap {op l r} :
    op = .add ∨ op = .mul →
    leaf l →
    leaf r = false →
    Change op l r (.node (.op op) r l)
  | subtract {l x} :
    leaf l = false →
    x ≠ .nil →
    Change .add l (.node (.op .sub) x .nil) (.node (.op .sub) l x)
  | negate {l r} :
    l.constant? = some 0 →
    Change .sub l r (.node (.op .sub) r .nil)
  | double {l r} :
    leaf l →
    r.constant? = some 2 →
    Change .mul l r (.node (.op .add) l l)

/-- A tree is a negation of an operand if it has that form. -/
lemma operand?_eq_some {t x} (e : operand? t = some x) :
    t = .node (.op .sub) x .nil ∧ x ≠ .nil := by
  unfold operand? at e
  split at e
  · cases e
    exact ⟨rfl, nofun⟩
  · cases e

/-- The rule leaves a node alone or makes one of the changes. -/
lemma rule_cases {op l r} (nl : l ≠ .nil) (nr : r ≠ .nil) :
    rule (.op op) l r = .node (.op op) l r ∨ Change op l r (rule (.op op) l r) := by
  rw [rule_op nl nr]
  cases op with
  | div => exact .inl rfl
  | assign => exact .inl rfl
  | seq => exact .inl rfl
  | sub =>
    simp only [binaryRule]
    split_ifs with zero
    · exact .inr (.negate zero)
    · exact .inl rfl
  | mul =>
    simp only [binaryRule, Bool.and_eq_true, Bool.not_eq_true', decide_eq_true_eq]
    split_ifs with swap double
    · exact .inr (.swap (.inr rfl) swap.1 swap.2)
    · exact .inr (.double double.1 double.2)
    · exact .inl rfl
  | add =>
    simp only [binaryRule, Bool.and_eq_true, Bool.not_eq_true']
    split_ifs with swap
    · exact .inr (.swap (.inl rfl) swap.1 swap.2)
    · cases e : operand? r with
      | none => exact .inl rfl
      | some x =>
        obtain ⟨rfl, nx⟩ := operand?_eq_some e
        refine .inr (.subtract ?_ nx)
        by_contra isLeaf
        exact swap ⟨by simpa using isLeaf, rfl⟩

/-- A leaf is neither a negation nor without a node. -/
lemma operand?_of_leaf {t} (h : leaf t) : operand? t = none := by
  cases e : operand? t with
  | none => rfl
  | some x =>
    obtain ⟨rfl, _⟩ := operand?_eq_some e
    cases h

/-- What is not a leaf is no constant. -/
lemma constant?_of_not_leaf {t} (h : leaf t = false) : t.constant? = none := by
  cases t with
  | nil => rfl
  | node k l r =>
    cases k with
    | const => cases h
    | var => rfl
    | op => rfl

/-- The result of a change needs no further change. -/
lemma Change.settled {op l r t} (c : Change op l r t) (nl : l ≠ .nil) (nr : r ≠ .nil)
    (sl : Settled rule l) (sr : Settled rule r) : Settled rule t := by
  cases c with
  | swap which isLeaf notLeaf =>
    refine .node sr sl ?_
    rw [rule_op nr nl]
    rcases which with rfl | rfl
    · simp only [binaryRule, notLeaf, operand?_of_leaf isLeaf]
      rfl
    · simp only [binaryRule, notLeaf]
      rfl
  | subtract notLeaf nx =>
    cases sr with
    | node sx _ _ =>
      refine .node sl sx ?_
      rw [rule_op nl nx]
      simp only [binaryRule, constant?_of_not_leaf notLeaf]
      rfl
  | negate => exact .node sr .nil (by cases r <;> rfl)
  | double isLeaf =>
    refine .node sl sl ?_
    rw [rule_op nl nl]
    simp only [binaryRule, isLeaf, operand?_of_leaf isLeaf]
    rfl

/-- A leaf, or an operator without one of its operands. -/
def Idle (k : Kind) (l r : Tree Kind) : Prop := (∀ op, k ≠ .op op) ∨ l = .nil ∨ r = .nil

/-- The rule has nothing to say about an idle node. -/
lemma Idle.rule_eq {k l r} (idle : Idle k l r) : rule k l r = .node k l r := by
  unfold rule
  split
  · rcases idle with h | h | h
    · exact absurd rfl (h _)
    · cases h
    · cases h
  · rfl

/-- A node that is not idle is an operator between two operands. -/
lemma idle_or_op (k : Kind) (l r : Tree Kind) :
    Idle k l r ∨ ∃ op, k = .op op ∧ l ≠ .nil ∧ r ≠ .nil := by
  cases k with
  | const => exact .inl (.inl nofun)
  | var => exact .inl (.inl nofun)
  | op op =>
    by_cases nl : l = .nil
    · exact .inl (.inr (.inl nl))
    by_cases nr : r = .nil
    · exact .inl (.inr (.inr nr))
    exact .inr ⟨op, rfl, nl, nr⟩

/-- The rule leaves a node alone or makes one of the changes to an operator between two operands. -/
lemma eq_node_or_change (k : Kind) (l r : Tree Kind) :
    rule k l r = .node k l r ∨
      ∃ op, k = .op op ∧ l ≠ .nil ∧ r ≠ .nil ∧ Change op l r (rule k l r) := by
  rcases idle_or_op k l r with idle | ⟨op, rfl, nl, nr⟩
  · exact .inl idle.rule_eq
  · rcases rule_cases nl nr with e | change
    · exact .inl e
    · exact .inr ⟨op, rfl, nl, nr, change⟩

/-- Simplification brings in no variable. -/
lemma frugal : rule.Frugal := by
  intro x k l r m
  rcases eq_node_or_change k l r with e | ⟨op, rfl, nl, nr, change⟩
  · rwa [e] at m
  · generalize rule (.op op) l r = t at change m
    cases change <;> simp [Tree.Mentions] at m ⊢ <;> tauto

/-- Simplification makes no tree higher, and its results cannot be simplified again. -/
lemma stable : rule.Stable where
  height_le k l r := by
    rcases eq_node_or_change k l r with e | ⟨op, rfl, nl, nr, change⟩
    · rw [e]
    · generalize rule (.op op) l r = t at change
      cases change <;> simp only [Tree.height] <;> omega
  settled k l r sl sr := by
    rcases eq_node_or_change k l r with e | ⟨op, rfl, nl, nr, change⟩
    · rw [e]
      exact .node sl sr e
    · exact change.settled nl nr sl sr

/-- Whether a leaf is at a handle shows in the tree below it. -/
lemma isLeaf_eq {s : Store} {h t} (u : s.Unfolds (some h) t) : isLeaf s h = leaf t := by
  obtain ⟨n, l, r, found, _, _, rfl⟩ := u.inv
  simp only [isLeaf, found, leaf, Option.any_some]

/-- Whether a constant is at a handle shows in the tree below it. -/
lemma isConst_eq {s : Store} {h t v} (u : s.Unfolds (some h) t) :
    isConst s v h = decide (t.constant? = some v) := by
  obtain ⟨n, l, r, found, _, _, rfl⟩ := u.inv
  simp only [isConst, found, Option.any_some]
  cases n.kind <;> simp [Tree.constant?]

/-- The operand of a negation at a handle is the operand of the tree below it. -/
lemma negated?_eq {s : Store} {h t} (u : s.Unfolds (some h) t) :
    (negated? s h = none ∧ operand? t = none) ∨
      ∃ x tx, negated? s h = some x ∧ operand? t = some tx ∧ s.Unfolds (some x) tx ∧ s.Child h x := by
  obtain ⟨n, l, r, found, ul, ur, rfl⟩ := u.inv
  simp only [negated?, found]
  by_cases neg : n.isNegation
  · rw [if_pos neg]
    simp only [Node.isNegation, Bool.and_eq_true, decide_eq_true_eq, Option.isNone_iff_eq_none] at neg
    rw [neg.2] at ur
    cases ur.nil_inv
    rw [neg.1]
    cases left : n.left with
    | none =>
      rw [left] at ul
      cases ul.nil_inv
      exact .inl ⟨rfl, rfl⟩
    | some x =>
      rw [left] at ul
      obtain ⟨m, ll, lr, _, _, _, rfl⟩ := ul.inv
      exact .inr ⟨x, _, rfl, rfl, ul, n, found, .inl left⟩
  · rw [if_neg neg]
    refine .inl ⟨rfl, ?_⟩
    cases e : operand? (.node n.kind l r) with
    | none => rfl
    | some tx =>
      obtain ⟨shape, _⟩ := operand?_eq_some e
      cases right : n.right with
      | none =>
        injection shape with kind
        exact absurd (by simp [Node.isNegation, kind, right]) neg
      | some y =>
        rw [right] at ur
        obtain ⟨m, rl, rr, _, _, _, rfl⟩ := ur.inv
        injection shape with _ _ empty
        cases empty

/-- A new node for two operands of a region has its children in the region. -/
lemma within_binary {P : Handle → Prop} {op l r} (pl : P l) (pr : P r) :
    (Edit.replace (.binary op l r)).Within P := by
  intro side c e
  cases side with
  | left =>
    cases e
    exact pl
  | right =>
    cases e
    exact pr

/-- The edit at an operator between two operands of a region stays in the region. -/
lemma binary_within {P : Handle → Prop} {s : Store} {l r} (rg : s.Region P) (op : Op) (pl : P l)
    (pr : P r) : (binary s op l r).Within P := by
  cases op with
  | div => exact trivial
  | assign => exact trivial
  | seq => exact trivial
  | sub =>
    simp only [binary]
    split
    · intro side c e
      cases side with
      | left =>
        cases e
        exact pr
      | right => cases e
    · exact trivial
  | mul =>
    simp only [binary]
    split
    · exact trivial
    · split
      · exact within_binary pl pl
      · exact trivial
  | add =>
    simp only [binary]
    split
    · exact trivial
    · cases e : negated? s r with
      | none => exact trivial
      | some x =>
        refine within_binary pl (rg.child r x pr ?_)
        simp only [negated?] at e
        cases found : s.node? r with
        | none =>
          rw [found] at e
          cases e
        | some m =>
          simp only [found, Option.ite_none_right_eq_some] at e
          exact ⟨m, found, .inl e.2⟩

/-- No edit of simplification brings in a handle from outside a region. -/
lemma isLocal : Local edit := by
  intro P s n rg slots
  cases kind : n.kind with
  | const v => simp only [edit, kind, Edit.Within]
  | var x => simp only [edit, kind, Edit.Within]
  | op op =>
    cases left : n.left with
    | none => simp only [edit, kind, left, Edit.Within]
    | some l =>
      cases right : n.right with
      | none => simp only [edit, kind, left, right, Edit.Within]
      | some r =>
        simp only [edit, kind, left, right]
        have pl : P l := slots .left l left
        have pr : P r := slots .right r right
        exact binary_within rg op pl pr

/-- The edit at an operator between two operands puts the simplified tree in its place. -/
lemma binary_yields {s : Store} {n : Node} {op l r tl tr} (kind : n.kind = .op op)
    (left : n.left = some l) (right : n.right = some r) (ul : s.Unfolds (some l) tl)
    (ur : s.Unfolds (some r) tr) : (binary s op l r).Yields s n (binaryRule op tl tr) := by
  have keep : Edit.keep.Yields s n (.node (.op op) tl tr) :=
    kind ▸ .keep (left ▸ ul) (right ▸ ur)
  have swap : Edit.swap.Yields s n (.node (.op op) tr tl) :=
    kind ▸ .swap (left ▸ ul) (right ▸ ur)
  cases op with
  | div => exact keep
  | assign => exact keep
  | seq => exact keep
  | sub =>
    simp only [binary, binaryRule, isConst_eq ul, decide_eq_true_eq]
    split_ifs
    · exact @Edit.Yields.replace s n (.negation r) _ _ ur .nil
    · exact keep
  | mul =>
    simp only [binary, binaryRule, isLeaf_eq ul, isLeaf_eq ur, isConst_eq ur]
    split_ifs
    · exact swap
    · exact @Edit.Yields.replace s n (.binary .add l l) _ _ ul ul
    · exact keep
  | add =>
    simp only [binary, binaryRule, isLeaf_eq ul, isLeaf_eq ur]
    split_ifs
    · exact swap
    · rcases negated?_eq ur with ⟨e, e'⟩ | ⟨x, tx, e, e', ux, _⟩
      · rw [e, e']
        exact keep
      · rw [e, e']
        exact @Edit.Yields.replace s n (.binary .sub l x) _ _ ul ux

/-- An idle node is kept. -/
lemma Idle.edit_eq {s : Store} {n : Node} {l r} (idle : Idle n.kind l r) (ul : s.Unfolds n.left l)
    (ur : s.Unfolds n.right r) : edit s n = .keep := by
  unfold edit
  split
  case h_1 op hl hr kind left right =>
    rw [left] at ul
    rw [right] at ur
    obtain ⟨_, _, _, _, _, _, rfl⟩ := ul.inv
    obtain ⟨_, _, _, _, _, _, rfl⟩ := ur.inv
    rcases idle with h | h | h
    · exact absurd kind (h op)
    · cases h
    · cases h
  case h_2 => rfl

/-- The edits of simplification carry out the rule. -/
lemma implements : Implements edit rule where
  loc := isLocal
  stable := stable
  yields s n l r ul ur := by
    rcases idle_or_op n.kind l r with idle | ⟨op, kind, nl, nr⟩
    · rw [idle.edit_eq ul ur, idle.rule_eq]
      exact .keep ul ur
    · cases left : n.left with
      | none => exact absurd (left ▸ ul).nil_inv nl
      | some hl =>
        cases right : n.right with
        | none => exact absurd (right ▸ ur).nil_inv nr
        | some hr =>
          rw [kind, rule_op nl nr]
          simp only [edit, kind, left, right]
          exact binary_yields kind left right (left ▸ ul) (right ▸ ur)

section

variable {op : Op} {l r x : Tree Kind}

/-- The operands of a commutative operator may change places. -/
lemma same_swap (which : op = .add ∨ op = .mul) (al : Arithmetic l) (ar : Arithmetic r) (env : Env) :
    Same ((Tree.node (.op op) l r).value env) ((Tree.node (.op op) r l).value env) := by
  have arith : op.isArithmetic := by rcases which with rfl | rfl <;> rfl
  have comm : ∀ a b, op.apply a b = op.apply b a := by
    intro a b
    rcases which with rfl | rfl
    · rw [Op.apply_add, Op.apply_add, Int64.add_comm]
    · rw [Op.apply_mul, Op.apply_mul, Int64.mul_comm]
  rw [Same, Arithmetic.value_binary arith al ar, Arithmetic.value_binary arith ar al]
  cases l.value env <;> cases r.value env <;>
    simp only [Option.bind_some, Option.bind_none, comm]

/-- Subtracting is adding the negation. -/
lemma same_subtract (al : Arithmetic l) (ax : Arithmetic x) (env : Env) :
    Same ((Tree.node (.op .add) l (.node (.op .sub) x .nil)).value env)
      ((Tree.node (.op .sub) l x).value env) := by
  rw [Same, Arithmetic.value_binary rfl al (.negation ax), Arithmetic.value_binary rfl al ax,
    ax.value_negation]
  cases l.value env <;> cases x.value env <;>
    simp only [Option.bind_some, Option.bind_none, Option.map_some, Option.map_none, Op.apply_sub,
      Op.apply_add, Int64.sub_eq_add_neg]

/-- Negating is subtracting from zero. -/
lemma same_negate (zero : l.constant? = some 0) (al : Arithmetic l) (ar : Arithmetic r) (env : Env) :
    Same ((Tree.node (.op .sub) l r).value env) ((Tree.node (.op .sub) r .nil).value env) := by
  rw [Same, Arithmetic.value_binary rfl al ar, ar.value_negation, Tree.value_of_constant? zero]
  cases r.value env <;>
    simp only [Option.bind_some, Option.bind_none, Option.map_some, Option.map_none, Op.apply_sub,
      Int64.zero_sub]

/-- Adding a tree to itself is doubling it. -/
lemma same_double (two : r.constant? = some 2) (al : Arithmetic l) (ar : Arithmetic r) (env : Env) :
    Same ((Tree.node (.op .mul) l r).value env) ((Tree.node (.op .add) l l).value env) := by
  rw [Same, Arithmetic.value_binary rfl al ar, Arithmetic.value_binary rfl al al,
    Tree.value_of_constant? two]
  cases l.value env <;>
    simp only [Option.bind_some, Option.bind_none, Op.apply_add, Op.apply_mul, Int64.mul_two]

end

/-- A change keeps the value. -/
lemma Change.keeps {op l r t} (c : Change op l r t) (nr : r ≠ .nil) :
    Keeps Same (.node (.op op) l r) t := by
  intro whole
  obtain ⟨arith, al, ar⟩ := whole.binary_inv nr
  cases c with
  | swap which => exact ⟨.binary arith ar al, same_swap which al ar⟩
  | negate zero => exact ⟨.negation ar, same_negate zero al ar⟩
  | double _ two => exact ⟨.binary rfl al al, same_double two al ar⟩
  | subtract _ nx =>
    cases ar with
    | negation ax => exact ⟨.binary rfl al ax, same_subtract al ax⟩
    | binary _ _ no => exact absurd rfl no.ne_nil

/-- Simplification keeps the value of an arithmetical node. -/
lemma sound : rule.Sound Same := by
  intro k l r
  rcases eq_node_or_change k l r with e | ⟨op, rfl, _, nr, change⟩
  · rw [e]
    exact .refl .same _
  · exact change.keeps nr

end ExprOpt.Peephole
