import ExprOpt.Compilation
import ExprOpt.Proofs.FoldedTree
import ExprOpt.Proofs.Grammar.Acceptance
import ExprOpt.Proofs.HoistedTree
import ExprOpt.Proofs.SimplifiedTree

/-!
# Compilation keeps the meaning

What is read is an arithmetical tree that leaves the name for hoisted subtrees free. Folding and
simplification keep it so, and hoisting, which comes last, needs it. Each pass keeps the value: folding
as far as there is one, the others altogether (`compile_keeps_meaning`).
-/

namespace ExprOpt

open Grammar

/-- A phrase stands for an arithmetical tree. -/
lemma Grammar.Phrase.arithmetic {c n w t} (p : Phrase c n w t) : Arithmetic t := by
  induction p with
  | letter => exact .var
  | number => exact .const
  | parenthesized _ _ _ ih => exact ih
  | negation _ _ ih => exact .negation ih
  | factor _ ih => exact ih
  | term _ ih => exact ih
  | product _ _ mark _ ihl ihr => exact .binary (by cases mark <;> rfl) ihl ihr
  | sum _ _ mark _ ihl ihr => exact .binary (by cases mark <;> rfl) ihl ihr

/-- All variables of a phrase are letters. -/
lemma Grammar.Phrase.isAlpha {c n w t x} (p : Phrase c n w t) (m : t.Mentions x) : x.isAlpha := by
  induction p with
  | letter _ alpha =>
    rcases m with e | m | m
    · cases e
      exact alpha
    · cases m
    · cases m
  | number => simp [Tree.Mentions] at m
  | parenthesized _ _ _ ih => exact ih m
  | negation _ _ ih =>
    rcases m with ⟨⟨⟩⟩ | m | ⟨⟨⟩⟩
    exact ih m
  | factor _ ih => exact ih m
  | term _ ih => exact ih m
  | product _ _ _ _ ihl ihr =>
    rcases m with ⟨⟨⟩⟩ | m | m
    · exact ihl m
    · exact ihr m
  | sum _ _ _ _ ihl ihr =>
    rcases m with ⟨⟨⟩⟩ | m | m
    · exact ihl m
    · exact ihr m

/-- There is a tree below the handle whose value stands for that of `t`. -/
def Store.Computes (R : Option Int64 → Option Int64 → Prop) (t : Tree Kind) (s : Store) (h : Handle) :
    Prop :=
  ∃ t', s.Unfolds (some h) t' ∧ ∀ env, R (t.value env) (t'.value env)

/-- The tree is moreover arithmetical and does not mention the name for hoisted subtrees. -/
def Store.Plain (R : Option Int64 → Option Int64 → Prop) (t : Tree Kind) (s : Store) (h : Handle) :
    Prop :=
  ∃ t', s.Unfolds (some h) t' ∧ Arithmetic t' ∧ ¬ t'.Mentions hoistedName ∧
    ∀ env, R (t.value env) (t'.value env)

variable {R : Option Int64 → Option Int64 → Prop} {t : Tree Kind} {s : Store} {root : Handle}

/-- A plain expression stands for the tree, whatever else is known of it. -/
lemma Store.Plain.computes (plain : s.Plain R t root) : s.Computes R t root := by
  obtain ⟨t', u, -, -, value⟩ := plain
  exact ⟨t', u, value⟩

/-- A sweep by a sound rule that brings in no variable. -/
lemma sweep_plain {edit : Store → Node → Edit} {rule : TreeRule} (imp : Implements edit rule)
    (agree : Agreement R) (sound : rule.Sound R) (frugal : rule.Frugal) (plain : s.Plain R t root) :
    (sweep edit root).Ensures s (fun r s' => s'.Plain R t r) (fun _ _ => True) := by
  obtain ⟨t', u, ar, unused, value⟩ := plain
  refine (sweep_evolves imp u).weaken ?_ fun _ _ _ => trivial
  rintro r s' ⟨-, -, u'⟩
  obtain ⟨ar', value'⟩ := sound.sweep agree t' ar
  exact ⟨_, u', ar', fun m => unused (frugal.sweep m),
    fun env => agree.trans _ _ _ (value env) (value' env)⟩

/-- A rule that keeps all values keeps them in every sense. -/
lemma TreeRule.Sound.of_same {rule : TreeRule} (agree : Agreement R) (sound : rule.Sound Same) :
    rule.Sound R := by
  intro k l r ar
  obtain ⟨ar', same⟩ := sound k l r ar
  refine ⟨ar', fun env => ?_⟩
  rw [same env]
  exact agree.refl _

/-- Hoisting a repetition out of a plain expression keeps what it computes. -/
lemma hoist_computes (plain : s.Plain R t root) :
    (Build.hoist root).Ensures s (fun r s' => s'.Computes R t r) (fun _ _ => True) := by
  obtain ⟨t', u, ar, unused, value⟩ := plain
  refine (Build.hoist_ensures u).weaken ?_ fun _ _ _ => trivial
  rintro r s' (u' | ⟨d, sub, ne, u'⟩)
  · exact ⟨t', u', value⟩
  · refine ⟨_, u', fun env => ?_⟩
    rw [Tree.value_hoisted sub ne ar unused]
    exact value env

/-- Runs a pass that may be switched off. -/
def Pass.runIf (pass : Pass) (on : Bool) (root : Handle) : Build Handle :=
  if on then pass.run root else pure root

/-- A pass that may be switched off ensures what it would if it were run, provided that nothing has to be
done for it. -/
lemma Pass.runIf_ensures (pass : Pass) {on : Bool} {Q : Handle → Store → Prop}
    {E : Error → Store → Prop} (run : on = true → (pass.run root).Ensures s Q E) (skip : Q root s) :
    (pass.runIf on root).Ensures s Q E := by
  cases on with
  | false => exact .pure skip
  | true => exact run rfl

/-- The passes that are switched on are run one after the other. -/
lemma foldlM_passes (options : Options) (root : Handle) :
    options.passes.foldlM (fun root (pass : Pass) => pass.run root) root = (do
      let root ← Pass.fold.runIf options.fold root
      let root ← Pass.simplify.runIf options.simplify root
      Pass.hoist.runIf options.hoist root) := by
  rw [Options.passes]
  cases options.fold <;> cases options.simplify <;> cases options.hoist <;> simp [Pass.runIf]

/-- The passes compute what they are given, in the sense in which folding does if it is switched on. -/
lemma passes_compute (options : Options) (agree : Agreement R)
    (folds : options.fold = true → Folding.rule.Sound R) (plain : s.Plain R t root) :
    (options.passes.foldlM (fun root (pass : Pass) => pass.run root) root).Ensures s
      (fun r s' => s'.Computes R t r) (fun _ _ => True) := by
  rw [foldlM_passes]
  refine Build.Ensures.bind (Pass.runIf_ensures .fold (fun on =>
    sweep_plain Folding.implements agree (folds on) Folding.frugal plain) plain) fun r₁ s₁ plain₁ => ?_
  refine Build.Ensures.bind (Pass.runIf_ensures .simplify (fun _ =>
    sweep_plain Peephole.implements agree (Peephole.sound.of_same agree) Peephole.frugal plain₁) plain₁)
    fun r₂ s₂ plain₂ => ?_
  exact Pass.runIf_ensures .hoist (fun _ => hoist_computes plain₂) plain₂.computes

/-- What has been read into a store is plain. -/
lemma plain_of_parse {source : String} {s s' : Store} (agree : Agreement R)
    (ran : (Build.parse source).run s = .ok root s') :
    ∃ t, s'.tree (some root) = .ok t ∧ s'.Plain R t root := by
  obtain ⟨t, ⟨v, b, -, phrase, -⟩, tree, -⟩ := text_of_run_parse ran
  have unused : ¬ t.Mentions hoistedName := fun m => Bool.false_ne_true (phrase.isAlpha m)
  exact ⟨t, tree, t, Store.tree_eq_ok_iff.1 tree, phrase.arithmetic, unused, fun _ => agree.refl _⟩

/-- A compiled expression was read, and its tree computes what was read, if folding does. -/
lemma compile_computes {source : String} {options : Options} {c : Compiled} (agree : Agreement R)
    (folds : options.fold = true → Folding.rule.Sound R) (ok : compile source options = .ok c) :
    ∃ root s t, (Build.parse source).run { capacity := options.capacity } = .ok root s ∧
      s.tree (some root) = .ok t ∧
      ∀ env, R (t.value env) ((c.tree.map Cell.kind).value env) := by
  rw [compile, Build.pipeline, EStateM.run_bind] at ok
  cases parsed : (Build.parse source).run { capacity := options.capacity } with
  | error e s =>
    rw [parsed] at ok
    cases ok
  | ok root s =>
    rw [parsed] at ok
    obtain ⟨t, tree, plain⟩ := plain_of_parse agree parsed
    have computes := passes_compute options agree folds plain
    refine ⟨root, s, t, rfl, tree, ?_⟩
    dsimp only at ok
    cases ran : (options.passes.foldlM (fun root (pass : Pass) => pass.run root) root).run s with
    | error e s' =>
      rw [ran] at ok
      cases ok
    | ok r s' =>
      rw [ran] at ok
      obtain ⟨t', u, value⟩ := computes.of_ok ran
      cases unfolded : s'.unfold (some r) with
      | error e =>
        simp [unfolded, bind, Except.bind] at ok
      | ok cells =>
        simp only [unfolded, bind, Except.bind, Except.ok.injEq] at ok
        cases ok
        cases u.unique (Store.unfolds_of_unfoldWithin unfolded)
        exact value

/-- If an expression compiles, the resulting tree has the value of the tree that is read from it,
wherever that has one. Without folding, it also has none where that has none. -/
theorem compile_keeps_meaning {source : String} {options : Options} {c : Compiled}
    (ok : compile source options = .ok c) :
    ∃ root s t, (Build.parse source).run { capacity := options.capacity } = .ok root s ∧
      s.tree (some root) = .ok t ∧
      (∀ env v, t.value env = some v → (c.tree.map Cell.kind).value env = some v) ∧
      (options.fold = false → ∀ env, (c.tree.map Cell.kind).value env = t.value env) := by
  obtain ⟨root, s, t, ran, tree, defined⟩ := compile_computes .defined (fun _ => Folding.sound) ok
  refine ⟨root, s, t, ran, tree, defined, fun off => ?_⟩
  -- Nothing but folding is in the way of the stricter sense.
  obtain ⟨root', s', t', ran', tree', same⟩ :=
    compile_computes .same (fun on => absurd (off.symm.trans on) Bool.false_ne_true) ok
  cases ran.symm.trans ran'
  cases tree.symm.trans tree'
  exact same

/-- The quotient of two variables. -/
def quotient : Tree Kind := .node (.op .div) (.node (.var 'a') .nil .nil) (.node (.var 'b') .nil .nil)

/-- All passes at work: a quotient that is squared is hoisted once a neutral zero is gone. -/
theorem compile_keeps_meaning_quotient : ∃ c, compile "(a/b+0)*(a/b)" {} = .ok c ∧
    c.tree.map Cell.kind = .hoisted quotient (.node (.op .mul) quotient quotient) ∧
    ∃ root s t, (Build.parse "(a/b+0)*(a/b)").run {} = .ok root s ∧ s.tree (some root) = .ok t ∧
      ∀ env v, t.value env = some v → (c.tree.map Cell.kind).value env = some v := by
  have compiled : (compile "(a/b+0)*(a/b)" {}).toOption.map (fun c => c.tree.map Cell.kind) =
      some (.hoisted quotient (.node (.op .mul) quotient quotient)) := by
    decide +kernel
  cases ok : compile "(a/b+0)*(a/b)" {} with
  | error e =>
    rw [ok] at compiled
    cases compiled
  | ok c =>
    rw [ok] at compiled
    obtain ⟨root, s, t, ran, tree, defined, -⟩ := compile_keeps_meaning ok
    exact ⟨c, rfl, Option.some.inj compiled, root, s, t, ran, tree, defined⟩

end ExprOpt
