import ExprOpt.Proofs.Sweeping.Trees
import ExprOpt.Proofs.Evaluation

/-!
# Sweeps that keep the value

A rule that keeps the value of a single operator between arithmetical operands (`TreeRule.Sound`)
keeps the value of every arithmetical tree, wherever in the tree it has been applied and wherever it
has not (`Advances.keeps`).
-/

namespace ExprOpt

/-- An arithmetical tree whose value, in every environment, the value of the other tree stands for. -/
def Keeps (R : Option Int64 → Option Int64 → Prop) (t t' : Tree Kind) : Prop :=
  Arithmetic t → Arithmetic t' ∧ ∀ env, R (t.value env) (t'.value env)

/-- A rule that keeps the value of arithmetical operators. -/
def TreeRule.Sound (R : Option Int64 → Option Int64 → Prop) (rule : TreeRule) : Prop :=
  ∀ k l r, Keeps R (.node k l r) (rule k l r)

/-- A rule that brings in no variable. -/
def TreeRule.Frugal (rule : TreeRule) : Prop :=
  ∀ x k l r, (rule k l r).Mentions x → (Tree.node k l r).Mentions x

variable {R : Option Int64 → Option Int64 → Prop} {rule : TreeRule}

/-- A tree keeps its own value. -/
lemma Keeps.refl (agree : Agreement R) (t : Tree Kind) : Keeps R t t :=
  fun ar => ⟨ar, fun _ => agree.refl _⟩

/-- A value may be kept in several steps. -/
lemma Keeps.trans {t t' t''} (agree : Agreement R) (k : Keeps R t t') (k' : Keeps R t' t'') :
    Keeps R t t'' := by
  intro ar
  obtain ⟨ar', h⟩ := k ar
  obtain ⟨ar'', h'⟩ := k' ar'
  exact ⟨ar'', fun env => agree.trans _ _ _ (h env) (h' env)⟩

/-- Operands may be replaced by operands that keep their value. An operand that is missing must stay
missing. -/
lemma Keeps.node {k l l' r r'} (agree : Agreement R) (kl : Keeps R l l') (kr : Keeps R r r')
    (nl : l = .nil → l' = .nil) (nr : r = .nil → r' = .nil) :
    Keeps R (.node k l r) (.node k l' r') := by
  intro ar
  cases ar with
  | const =>
    rw [nl rfl, nr rfl]
    exact ⟨.const, fun _ => agree.refl _⟩
  | var =>
    rw [nl rfl, nr rfl]
    exact ⟨.var, fun _ => agree.refl _⟩
  | negation al =>
    rw [nr rfl]
    obtain ⟨al', hl⟩ := kl al
    exact ⟨.negation al', fun env => al.negation_congr agree al' (hl env)⟩
  | binary arith al ar =>
    obtain ⟨al', hl⟩ := kl al
    obtain ⟨ar', hr⟩ := kr ar
    refine ⟨.binary arith al' ar', fun env => ?_⟩
    exact Arithmetic.binary_congr agree arith al ar al' ar' (hl env) (hr env)

/-- A sound rule keeps the value of a tree that is swept. -/
lemma TreeRule.Sound.sweep (agree : Agreement R) (sound : rule.Sound R) (t : Tree Kind) :
    Keeps R t (t.sweep rule) := by
  induction t with
  | nil => exact .refl agree _
  | node k l r ihl ihr =>
    refine .trans agree (.node agree ihl ihr ?_ ?_) (sound k _ _)
    · rintro rfl
      rfl
    · rintro rfl
      rfl

/-- A swept tree mentions no other variables than before. -/
lemma TreeRule.Frugal.sweep (frugal : rule.Frugal) {x : Char} {t : Tree Kind}
    (m : (t.sweep rule).Mentions x) : t.Mentions x := by
  induction t with
  | nil => exact m
  | node k l r ihl ihr => exact (frugal x k _ _ m).imp id (Or.imp ihl ihr)

/-- A sound rule keeps the value of a tree that is swept in parts. -/
lemma Advances.keeps {t t'} (agree : Agreement R) (sound : rule.Sound R)
    (adv : Advances rule t t') : Keeps R t t' := by
  induction adv with
  | refl => exact .refl agree _
  | sweep => exact sound.sweep agree _
  | node advl advr ihl ihr =>
    refine .node agree ihl ihr ?_ ?_
    · rintro rfl
      exact advl.nil_inv
    · rintro rfl
      exact advr.nil_inv
  | trans _ _ ih ih' => exact ih.trans agree ih'

end ExprOpt
