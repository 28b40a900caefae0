import ExprOpt.Folding
import ExprOpt.Proofs.Sweeping.Meaning

/-!
# Folding trees

Constant folding as a rule on trees, `Folding.rule`, and the proof that the edits of the store carry
it out (`Folding.implements`). A folded tree contains nothing that could be folded, and it has the
value of the tree that it came from, if that has one (`Folding.sound`).
-/

namespace ExprOpt.Folding

open ExprOpt.Tree (constant constant?)

/-- An operand in place of the node, unless it is missing. -/
def operandOr : Tree Kind → Tree Kind → Tree Kind
  | .nil, node => node
  | t, _ => t

/-- The tree that an operator without a right operand is folded to. -/
def unaryRule (op : Op) (l : Tree Kind) : Tree Kind :=
  match op, constant? l with
  | .sub, some v => constant (-v)
  | _, _ => .node (.op op) l .nil

/-- The tree that an operator with a right operand is folded to. Two constants are computed unless the
second is the divisor zero; a neutral constant leaves the other operand, and a factor of zero leaves
zero. -/
def binaryRule (op : Op) (l r : Tree Kind) : Tree Kind :=
  let node := .node (.op op) l r
  match op, constant? l, constant? r with
  | .add, some a, some b => constant (a + b)
  | .sub, some a, some b => constant (a - b)
  | .mul, some a, some b => constant (a * b)
  | .div, some a, some b => if b = 0 then node else constant (a / b)
  | .add, some a, none => if a = 0 then operandOr r node else node
  | .mul, some a, none => if a = 1 then operandOr r node else if a = 0 then constant 0 else node
  | .add, none, some b => if b = 0 then operandOr l node else node
  | .sub, none, some b => if b = 0 then operandOr l node else node
  | .mul, none, some b => if b = 1 then operandOr l node else if b = 0 then constant 0 else node
  | .div, none, some b => if b = 1 then operandOr l node else node
  | _, _, _ => node

/-- The tree that a node with folded children is folded to. -/
def rule : TreeRule := fun k l r =>
  match k, r with
  | .op op, .nil => unaryRule op l
  | .op op, r => binaryRule op l r
  | k, r => .node k l r

/-- Folds a tree. -/
def tree (t : Tree Kind) : Tree Kind := t.sweep rule

/-- The tree that a verdict stands for. -/
def Verdict.tree (op : Op) (l r : Tree Kind) : Verdict → Tree Kind
  | .unchanged => .node (.op op) l r
  | .leftOperand => operandOr l (.node (.op op) l r)
  | .rightOperand => operandOr r (.node (.op op) l r)
  | .constant v => Tree.constant v

/-- The verdict on an operator without a right operand is the rule for it. -/
lemma unaryRule_eq (op : Op) (l : Tree Kind) :
    unaryRule op l = (unary op (constant? l)).tree op l .nil := by
  cases op <;> cases e : constant? l <;> simp only [unaryRule, unary, e, Verdict.tree]

/-- The verdict on an operator with a right operand is the rule for it. -/
lemma binaryRule_eq (op : Op) (l r : Tree Kind) :
    binaryRule op l r = (binary op (constant? l) (constant? r)).tree op l r := by
  cases op <;> cases el : constant? l <;> cases er : constant? r <;>
    simp only [binaryRule, el, er, binary, evaluate, identity, Verdict.tree]
  all_goals grind

/-- The verdict on an operator. -/
def verdict (op : Op) (l r : Tree Kind) : Verdict :=
  match r with
  | .nil => unary op (constant? l)
  | r => binary op (constant? l) (constant? r)

/-- The rule for an operator follows the verdict on it. -/
lemma rule_op (op : Op) (l r : Tree Kind) : rule (.op op) l r = (verdict op l r).tree op l r := by
  cases r with
  | nil => exact unaryRule_eq op l
  | node k rl rr => exact binaryRule_eq op l _

/-- A node stays, or one of its operands or a constant takes its place. -/
lemma rule_cases (k : Kind) (l r : Tree Kind) :
    rule k l r = .node k l r ∨ rule k l r = l ∨ rule k l r = r ∨ ∃ v, rule k l r = constant v := by
  cases k with
  | const v => exact .inl rfl
  | var x => exact .inl rfl
  | op op =>
    rw [rule_op]
    cases verdict op l r with
    | unchanged => exact .inl rfl
    | constant v => exact .inr (.inr (.inr ⟨v, rfl⟩))
    | leftOperand =>
      cases l with
      | nil => exact .inl rfl
      | node => exact .inr (.inl rfl)
    | rightOperand =>
      cases r with
      | nil => exact .inl rfl
      | node => exact .inr (.inr (.inl rfl))

/-- Folding brings in no variable. -/
lemma frugal : rule.Frugal := by
  intro x k l r m
  rcases rule_cases k l r with e | e | e | ⟨v, e⟩ <;> rw [e] at m
  · exact m
  · exact .inr (.inl m)
  · exact .inr (.inr m)
  · simp [constant, Tree.Mentions] at m

/-- Folding makes no tree higher, and what it leaves cannot be folded again. -/
lemma stable : rule.Stable where
  height_le k l r := by
    rcases rule_cases k l r with e | e | e | ⟨v, e⟩ <;> rw [e] <;>
      simp only [constant, Tree.height] <;> omega
  settled k l r sl sr := by
    rcases rule_cases k l r with e | e | e | ⟨v, e⟩
    · rw [e]
      exact .node sl sr e
    · rw [e]
      exact sl
    · rw [e]
      exact sr
    · rw [e]
      exact .node .nil .nil rfl

/-- The constant in a slot of the store is the constant of the tree below it. -/
lemma const?_eq {s : Store} {o t} (u : s.Unfolds o t) : o.bind (const? s) = constant? t := by
  cases u with
  | nil => rfl
  | @node h n l r found _ _ =>
    simp only [Option.bind_some, const?, found]
    cases n.kind <;> rfl

/-- The edit that a verdict on a node leads to. -/
def Verdict.edit (n : Node) : Verdict → Edit
  | .unchanged => .keep
  | .leftOperand => .child n.left
  | .rightOperand => .child n.right
  | .constant v => .replace (.const v)

/-- The edit at an operator follows the verdict on the trees of its operands. -/
lemma edit_op {s : Store} {n : Node} {op l r} (kind : n.kind = .op op) (ul : s.Unfolds n.left l)
    (ur : s.Unfolds n.right r) : edit s n = (verdict op l r).edit n := by
  have el := const?_eq ul
  have er := const?_eq ur
  cases right : n.right with
  | none =>
    rw [right] at ur
    cases ur.nil_inv
    simp only [edit, kind, right, el, verdict]
    cases unary op (constant? l) <;> simp only [Verdict.edit, right]
  | some h =>
    rw [right] at ur er
    obtain ⟨m, rl, rr, _, _, _, rfl⟩ := ur.inv
    simp only [Option.bind_some] at er
    simp only [edit, kind, right, el, er, verdict]
    cases binary op (constant? l) (constant? (.node m.kind rl rr)) <;> simp only [Verdict.edit, right]

/-- Every edit follows some verdict. -/
lemma exists_verdict (s : Store) (n : Node) : ∃ v : Verdict, edit s n = v.edit n := by
  cases kind : n.kind with
  | op op =>
    simp only [edit, kind]
    exact ⟨_, rfl⟩
  | const v => exact ⟨.unchanged, by simp only [edit, kind, Verdict.edit]⟩
  | var x => exact ⟨.unchanged, by simp only [edit, kind, Verdict.edit]⟩

/-- No edit of folding brings in a handle other than the children of the node. -/
lemma isLocal : Local edit := by
  intro P s n _ slots
  have child : ∀ side, (Edit.child (n.slot side)).Within P := by
    intro side
    cases e : n.slot side with
    | none => exact trivial
    | some c => exact slots side c e
  obtain ⟨v, e⟩ := exists_verdict s n
  rw [e]
  cases v with
  | unchanged => exact trivial
  | leftOperand => exact child .left
  | rightOperand => exact child .right
  | constant v =>
    intro side c e
    cases side <;> cases e

/-- A verdict puts its tree in the place of the node. -/
lemma Verdict.yields {s : Store} {n : Node} {op l r} (kind : n.kind = .op op)
    (ul : s.Unfolds n.left l) (ur : s.Unfolds n.right r) (v : Verdict) :
    (v.edit n).Yields s n (v.tree op l r) := by
  have keep : Edit.keep.Yields s n (.node (.op op) l r) := kind ▸ .keep ul ur
  have child : ∀ {o t}, s.Unfolds o t →
      (Edit.child o).Yields s n (operandOr t (.node (.op op) l r)) := by
    intro o t u
    cases o with
    | none =>
      cases u.nil_inv
      exact keep
    | some h =>
      obtain ⟨m, tl, tr, _, _, _, rfl⟩ := u.inv
      exact .reuse u
  cases v with
  | unchanged => exact keep
  | leftOperand => exact child ul
  | rightOperand => exact child ur
  | constant v => exact @Edit.Yields.replace s n (.const v) _ _ .nil .nil

/-- The edits of folding carry out the rule. -/
lemma implements : Implements edit rule where
  loc := isLocal
  stable := stable
  yields s n l r ul ur := by
    cases kind : n.kind with
    | op op =>
      rw [edit_op kind ul ur, rule_op]
      exact (verdict op l r).yields kind ul ur
    | const v =>
      have y := Edit.Yields.keep ul ur
      rw [kind] at y
      simp only [edit, kind]
      exact y
    | var x =>
      have y := Edit.Yields.keep ul ur
      rw [kind] at y
      simp only [edit, kind]
      exact y

section

variable {op : Op} {l r : Tree Kind} {a b v : Int64}

/-- An operator between two constants may be computed. -/
lemma keeps_constants (el : constant? l = some a) (er : constant? r = some b)
    (h : op.apply a b = some v) : Keeps Defined (.node (.op op) l r) (constant v) := by
  intro ar
  obtain ⟨arith, al, ar⟩ := ar.binary_inv (by rintro rfl; cases er)
  refine ⟨.const, fun env => ?_⟩
  rw [Arithmetic.value_binary arith al ar, Tree.value_of_constant? el, Tree.value_of_constant? er,
    Option.bind_some, Option.bind_some, h]
  exact fun _ => id

/-- A neutral constant on the right leaves the left operand. -/
lemma keeps_left (er : constant? r = some b) (h : ∀ a, op.apply a b = some a) :
    Keeps Defined (.node (.op op) l r) (operandOr l (.node (.op op) l r)) := by
  intro ar
  obtain ⟨arith, al, ar⟩ := ar.binary_inv (by rintro rfl; cases er)
  have there : operandOr l (.node (.op op) l r) = l := by cases al <;> rfl
  rw [there]
  refine ⟨al, fun env => ?_⟩
  rw [Arithmetic.value_binary arith al ar, Tree.value_of_constant? er]
  simp only [Option.bind_some, h, Option.bind_fun_some]
  exact fun _ => id

/-- A neutral constant on the left leaves the right operand. -/
lemma keeps_right (ne : r ≠ .nil) (el : constant? l = some a) (h : ∀ b, op.apply a b = some b) :
    Keeps Defined (.node (.op op) l r) (operandOr r (.node (.op op) l r)) := by
  intro ar
  obtain ⟨arith, al, ar⟩ := ar.binary_inv ne
  have there : operandOr r (.node (.op op) l r) = r := by cases ar <;> rfl
  rw [there]
  refine ⟨ar, fun env => ?_⟩
  rw [Arithmetic.value_binary arith al ar, Tree.value_of_constant? el]
  simp only [Option.bind_some, h, Option.bind_fun_some]
  exact fun _ => id

/-- A constant on the left that decides the result makes the right operand irrelevant, unless it has no
value. -/
lemma keeps_decided_left (ne : r ≠ .nil) (el : constant? l = some a)
    (h : ∀ b, op.apply a b = some v) : Keeps Defined (.node (.op op) l r) (constant v) := by
  intro ar
  obtain ⟨arith, al, ar⟩ := ar.binary_inv ne
  refine ⟨.const, fun env w e => ?_⟩
  rw [Arithmetic.value_binary arith al ar, Tree.value_of_constant? el, Option.bind_some] at e
  obtain ⟨b, _, eb⟩ := Option.bind_eq_some_iff.1 e
  exact (h b).symm.trans eb

/-- A constant on the right that decides the result makes the left operand irrelevant, unless it has no
value. -/
lemma keeps_decided_right (er : constant? r = some b) (h : ∀ a, op.apply a b = some v) :
    Keeps Defined (.node (.op op) l r) (constant v) := by
  intro ar
  obtain ⟨arith, al, ar⟩ := ar.binary_inv (by rintro rfl; cases er)
  refine ⟨.const, fun env w e => ?_⟩
  rw [Arithmetic.value_binary arith al ar, Tree.value_of_constant? er] at e
  obtain ⟨a, _, ea⟩ := Option.bind_eq_some_iff.1 e
  exact (h a).symm.trans ea

/-- Folding keeps the value of an operator with a right operand, if it has one. -/
lemma binaryRule_keeps (ne : r ≠ .nil) :
    Keeps Defined (.node (.op op) l r) (binaryRule op l r) := by
  have node := Keeps.refl Agreement.defined (.node (.op op) l r)
  simp only [binaryRule]
  split
  case h_1 a b el er => exact keeps_constants el er (Op.apply_add a b)
  case h_2 a b el er => exact keeps_constants el er (Op.apply_sub a b)
  case h_3 a b el er => exact keeps_constants el er (Op.apply_mul a b)
  case h_4 a b el er =>
    split_ifs with zero
    · exact node
    · exact keeps_constants el er (by rw [Op.apply_div, if_neg zero])
  case h_5 a el er =>
    split_ifs with zero
    · exact keeps_right ne el (by simp [zero])
    · exact node
  case h_6 a el er =>
    split_ifs with one zero
    · exact keeps_right ne el (by simp [one])
    · exact keeps_decided_left ne el (by simp [zero])
    · exact node
  case h_7 b el er =>
    split_ifs with zero
    · exact keeps_left er (by simp [zero])
    · exact node
  case h_8 b el er =>
    split_ifs with zero
    · exact keeps_left er (by simp [zero])
    · exact node
  case h_9 b el er =>
    split_ifs with one zero
    · exact keeps_left er (by simp [one])
    · exact keeps_decided_right er (by simp [zero])
    · exact node
  case h_10 b el er =>
    split_ifs with one
    · exact keeps_left er (by simp [one])
    · exact node
  case h_11 => exact node

end

/-- Folding keeps the value of an arithmetical node, if it has one. -/
lemma sound : rule.Sound Defined := by
  intro k l r ar
  cases ar with
  | const => exact ⟨.const, fun _ _ => id⟩
  | var => exact ⟨.var, fun _ _ => id⟩
  | negation al =>
    simp only [rule, unaryRule]
    cases e : constant? l with
    | none => exact ⟨.negation al, fun _ _ => id⟩
    | some v =>
      refine ⟨.const, fun env => ?_⟩
      rw [al.value_negation, Tree.value_of_constant? e]
      exact fun _ => id
  | binary arith al ar =>
    cases r with
    | nil => exact absurd rfl ar.ne_nil
    | node => exact binaryRule_keeps nofun (.binary arith al ar)

end ExprOpt.Folding
