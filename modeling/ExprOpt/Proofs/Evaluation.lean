import ExprOpt.Tree
import Mathlib.Logic.Function.Basic
import Mathlib.Tactic.Lemma

/-!
# The value of a tree

Operators work on 64-bit integers: the exact result wraps around, division goes toward zero, and
division by zero has no result. A tree is evaluated from left to right in an environment that
assignments change, and it has no value if one of its operands has none.

The trees of numbers, variables and the four arithmetical operators are `Arithmetic`. Evaluating them
changes no variable, and their values are related whenever the values of their operands are
(`Arithmetic.congr`), for every relation that says of two optional values that they agree
(`Agreement.same`) or that the second one is defined whenever the first one is
(`Agreement.defined`).
-/

namespace ExprOpt

/-- The exact result of an operator between two integers. -/
def Op.exact (op : Op) (a b : Int) : Option Int :=
  match op with
  | .add => some (a + b)
  | .sub => some (a - b)
  | .mul => some (a * b)
  | .div => if b = 0 then none else some (a.tdiv b)
  | .assign => none
  | .seq => none

/-- The result of an operator between two 64-bit integers, wrapped around. -/
def Op.apply (op : Op) (a b : Int64) : Option Int64 :=
  (op.exact a.toInt b.toInt).map Int64.ofInt

/-- The values of the variables. -/
abbrev Env := Char → Int64

namespace Tree

/-- The value of a tree, and the values of the variables afterwards. -/
def eval : Tree Kind → Env → Option (Int64 × Env)
  | .nil, _ => none
  | .node (.const v) _ _, env => some (v, env)
  | .node (.var x) _ _, env => some (env x, env)
  | .node (.op .assign) l r, env =>
    match l with
    | .node (.var x) _ _ => do
      let (v, env) ← r.eval env
      some (v, Function.update env x v)
    | _ => none
  | .node (.op .seq) l r, env => do
    let (_, env) ← l.eval env
    r.eval env
  | .node (.op .sub) l .nil, env => do
    let (a, env) ← l.eval env
    some (Int64.ofInt (-a.toInt), env)
  | .node (.op op) l r, env => do
    let (a, env) ← l.eval env
    let (b, env) ← r.eval env
    let v ← op.apply a b
    some (v, env)

/-- The value of a tree. -/
def value (t : Tree Kind) (env : Env) : Option Int64 := (t.eval env).map Prod.fst

/-- A variable occurs in a tree. -/
def Mentions (x : Char) : Tree Kind → Prop
  | .nil => False
  | .node k l r => k = .var x ∨ l.Mentions x ∨ r.Mentions x

/-- A tree that is a constant. -/
def constant (v : Int64) : Tree Kind := .node (.const v) .nil .nil

/-- The constant at the root of a tree. -/
def constant? : Tree Kind → Option Int64
  | .node (.const v) _ _ => some v
  | _ => none

/-- A constant has its own value. -/
lemma value_of_constant? {t v} (e : constant? t = some v) (env : Env) : t.value env = some v := by
  cases t with
  | nil => cases e
  | node k l r =>
    cases k with
    | const =>
      cases e
      rfl
    | op => cases e
    | var => cases e

end Tree

/-- Whether an operator computes with numbers. -/
def Op.isArithmetic : Op → Bool
  | .add | .sub | .mul | .div => true
  | .assign | .seq => false

/-- Trees of constants, variables, arithmetical operators and negations. -/
inductive Arithmetic : Tree Kind → Prop where
  | const {v} :
    Arithmetic (.node (.const v) .nil .nil)
  | var {x} :
    Arithmetic (.node (.var x) .nil .nil)
  | negation {t} :
    Arithmetic t →
    Arithmetic (.node (.op .sub) t .nil)
  | binary {op l r} :
    op.isArithmetic →
    Arithmetic l →
    Arithmetic r →
    Arithmetic (.node (.op op) l r)

/-- A way in which an optional value may stand for another: in place of itself, through others, and as
an intermediate result. -/
structure Agreement (R : Option Int64 → Option Int64 → Prop) : Prop where
  refl : ∀ x, R x x
  trans : ∀ x y z, R x y → R y z → R x z
  bind : ∀ x y (f g : Int64 → Option Int64), R x y → (∀ v, R (f v) (g v)) → R (x.bind f) (y.bind g)

/-- Two optional values are the same. -/
def Same (x y : Option Int64) : Prop := y = x

/-- The second optional value is the first one if that is defined. -/
def Defined (x y : Option Int64) : Prop := ∀ v, x = some v → y = some v

/-- Equality of results is an agreement. -/
lemma Agreement.same : Agreement Same where
  refl _ := rfl
  trans _ _ _ e e' := e'.trans e
  bind x y f g e h := by
    rw [e, funext h]
    rfl

/-- To keep every value that is defined is an agreement. -/
lemma Agreement.defined : Agreement Defined where
  refl _ _ e := e
  trans _ _ _ d d' v e := d' v (d v e)
  bind x y f g d h v e := by
    obtain ⟨a, ea, ef⟩ := Option.bind_eq_some_iff.1 e
    rw [d a ea]
    exact h a v ef

namespace Arithmetic

/-- An arithmetical tree is not empty. -/
lemma ne_nil {t} (ar : Arithmetic t) : t ≠ .nil := by
  rintro rfl
  cases ar

/-- An arithmetical operator with a right operand has two arithmetical operands. -/
lemma binary_inv {op l r} (ar : Arithmetic (.node (.op op) l r)) (ne : r ≠ .nil) :
    op.isArithmetic ∧ Arithmetic l ∧ Arithmetic r := by
  cases ar with
  | negation => exact absurd rfl ne
  | binary arith al ar => exact ⟨arith, al, ar⟩

/-- The evaluation of an operator between operands that are there. -/
lemma eval_binary {op l r} (arith : op.isArithmetic) (ne : r ≠ .nil) (env : Env) :
    (Tree.node (.op op) l r).eval env = (l.eval env).bind fun (a, env) =>
      (r.eval env).bind fun (b, env) => (op.apply a b).bind fun v => some (v, env) := by
  cases op with
  | assign => cases arith
  | seq => cases arith
  | add => rfl
  | mul => rfl
  | div => rfl
  | sub =>
    cases r with
    | nil => exact absurd rfl ne
    | node => rfl

/-- Evaluating an arithmetical tree changes no variable. -/
lemma eval_eq {t} (ar : Arithmetic t) (env : Env) :
    t.eval env = (t.value env).map fun v => (v, env) := by
  suffices keeps : ∀ v env', t.eval env = some (v, env') → env' = env by
    cases e : t.eval env with
    | none => simp only [Tree.value, e, Option.map_none]
    | some p =>
      obtain ⟨v, env'⟩ := p
      rw [Tree.value, e, keeps v env' e]
      rfl
  induction ar with
  | const =>
    intro v env' e
    cases e
    rfl
  | var =>
    intro v env' e
    cases e
    rfl
  | negation _ ih =>
    intro v env' e
    obtain ⟨⟨a, env₁⟩, ea, e'⟩ := Option.bind_eq_some_iff.1 e
    cases e'
    exact ih a _ ea
  | binary arith _ arr ihl ihr =>
    intro v env' e
    rw [eval_binary arith arr.ne_nil] at e
    obtain ⟨⟨a, env₁⟩, ea, e⟩ := Option.bind_eq_some_iff.1 e
    obtain ⟨⟨b, env₂⟩, eb, e⟩ := Option.bind_eq_some_iff.1 e
    obtain ⟨w, _, e⟩ := Option.bind_eq_some_iff.1 e
    cases e
    have e₁ := ihl a env₁ ea
    subst e₁
    exact ihr b _ eb

/-- The value of a negation. -/
lemma value_negation {t} (ar : Arithmetic t) (env : Env) :
    (Tree.node (.op .sub) t .nil).value env = (t.value env).map fun a => -a := by
  have e : (Tree.node (.op .sub) t .nil).eval env =
      (t.eval env).bind fun (a, env) => some (Int64.ofInt (-a.toInt), env) := rfl
  rw [Tree.value, e, ar.eval_eq]
  cases t.value env with
  | none => rfl
  | some a => simp

/-- The value of an operator between two operands. -/
lemma value_binary {op l r} (arith : op.isArithmetic) (al : Arithmetic l) (ar : Arithmetic r)
    (env : Env) :
    (Tree.node (.op op) l r).value env =
      (l.value env).bind fun a => (r.value env).bind fun b => op.apply a b := by
  rw [Tree.value, eval_binary arith ar.ne_nil, al.eval_eq]
  cases l.value env with
  | none => rfl
  | some a =>
    simp only [Option.map_some, Option.bind_some, ar.eval_eq]
    cases r.value env with
    | none => rfl
    | some b =>
      simp only [Option.map_some, Option.bind_some]
      cases op.apply a b <;> rfl

variable {R : Option Int64 → Option Int64 → Prop}

/-- The value of a negation stands for another if the value of its operand does. -/
lemma negation_congr (agree : Agreement R) {t t'} {env : Env} (ar : Arithmetic t)
    (ar' : Arithmetic t') (h : R (t.value env) (t'.value env)) :
    R ((Tree.node (.op .sub) t .nil).value env) ((Tree.node (.op .sub) t' .nil).value env) := by
  rw [ar.value_negation, ar'.value_negation, Option.map_eq_bind, Option.map_eq_bind]
  exact agree.bind _ _ _ _ h fun v => agree.refl _

/-- The value of an operation stands for another if the values of its operands do. -/
lemma binary_congr (agree : Agreement R) {op l l' r r'} {env : Env} (arith : op.isArithmetic)
    (al : Arithmetic l) (ar : Arithmetic r) (al' : Arithmetic l') (ar' : Arithmetic r')
    (hl : R (l.value env) (l'.value env)) (hr : R (r.value env) (r'.value env)) :
    R ((Tree.node (.op op) l r).value env) ((Tree.node (.op op) l' r').value env) := by
  rw [value_binary arith al ar, value_binary arith al' ar']
  exact agree.bind _ _ _ _ hl fun a => agree.bind _ _ _ _ hr fun b => agree.refl _

end Arithmetic

namespace Op

/-- A sum always has a value, which wraps around. -/
@[simp] lemma apply_add (a b : Int64) : Op.add.apply a b = some (a + b) := by
  simp [apply, exact]

/-- A difference always has a value, which wraps around. -/
@[simp] lemma apply_sub (a b : Int64) : Op.sub.apply a b = some (a - b) := by
  simp [apply, exact]

/-- A product always has a value, which wraps around. -/
@[simp] lemma apply_mul (a b : Int64) : Op.mul.apply a b = some (a * b) := by
  simp [apply, exact]

/-- Division by zero has no result, and any other division is the machine's. -/
@[simp] lemma apply_div (a b : Int64) :
    Op.div.apply a b = if b = 0 then none else some (a / b) := by
  have zero : b.toInt = 0 ↔ b = 0 := by
    rw [← Int64.toInt_inj]
    rfl
  by_cases e : b = 0
  · simp [apply, exact, e]
  · simp only [apply, exact, zero, e, if_false, Option.map_some]
    rw [Int64.ofInt_tdiv a.minValue_le_toInt a.toInt_le b.minValue_le_toInt b.toInt_le]
    simp

end Op

end ExprOpt
