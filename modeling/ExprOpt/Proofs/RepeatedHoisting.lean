import ExprOpt.Grammar.Parsing
import ExprOpt.Proofs.HoistedCost

/-!
# Hoisting again and again

Every hoisting uses the same name. After the first one the tree is `@ = d, rest`, and the next one puts its
own binding in front: `@ = x, @ = d, rest`, with the name in place of `x`. Within `d` this is right, but
`rest` comes after the second binding and reads `d` where `x` was. So a further hoisting keeps the value of
the tree as long as what it hoists does not occur in `rest` (`hoistTimes_keeps_value`). If it does occur
there then the two subtrees are taken for one another (`hoistTimes_confuses_squares`).

What is carried from one hoisting to the next is that the first thing to be computed is an arithmetical
tree without the name (`Tree.Staged`).
-/

namespace ExprOpt

namespace Tree

/-- Nothing has been named yet, or the first thing to be named does not mention the name. -/
inductive Staged : Tree Kind → Prop where
  | plain {t} :
    Arithmetic t →
    ¬ t.Mentions hoistedName →
    Staged t
  | bound {d rest} :
    Arithmetic d →
    ¬ d.Mentions hoistedName →
    Staged (bound d rest)

variable {d t x rest : Tree Kind}

/-- The listed subtrees are subtrees. -/
lemma Subtree.of_mem_subtrees (mem : d ∈ t.subtrees) : Subtree d t := by
  induction t with
  | nil => cases mem
  | node k l r ihl ihr =>
    cases mem with
    | head => exact .refl
    | tail _ mem =>
      rcases List.mem_append.1 mem with mem | mem
      · exact (ihl mem).left
      · exact (ihr mem).right

/-- There is nothing to replace where the subtree does not occur. -/
lemma without_of_notMem (absent : d ∉ t.subtrees) : t.without d = t := by
  induction t with
  | nil => rfl
  | node k l r ihl ihr =>
    rw [subtrees, List.mem_cons, List.mem_append, not_or, not_or] at absent
    obtain ⟨other, left, right⟩ := absent
    rw [without, if_neg (Ne.symm other), ihl left, ihr right]

/-- What stands in a tree twice stands twice below its root. -/
lemma two_le_count_below {k : Kind} {l r : Tree Kind} (twice : 2 ≤ (node k l r).subtrees.count x) :
    node k l r ≠ x ∧ 2 ≤ l.subtrees.count x + r.subtrees.count x := by
  have other : node k l r ≠ x := by
    rintro rfl
    rw [count_subtrees_self] at twice
    omega
  rw [subtrees, List.count_cons_of_ne other, List.count_append] at twice
  exact ⟨other, twice⟩

/-- What stands in a binding and what follows it twice, but not in what follows, stands in what is bound. -/
lemma mem_of_bound (twice : 2 ≤ (bound d rest).subtrees.count x) (large : 2 < x.size)
    (absent : x ∉ rest.subtrees) :
    x ∈ d.subtrees ∧ (bound d rest).without x = bound (d.without x) rest := by
  obtain ⟨other, below⟩ := two_le_count_below twice
  rw [List.count_eq_zero_of_not_mem absent, Nat.add_zero] at below
  obtain ⟨other', below'⟩ := two_le_count_below below
  have leaf : node (.var hoistedName) .nil .nil ≠ x := by
    rintro rfl
    exact absurd large (by decide)
  have none : (node (.var hoistedName) .nil .nil).subtrees.count x = 0 := List.count_cons_of_ne leaf
  rw [none, Nat.zero_add] at below'
  refine ⟨List.count_pos_iff.1 (Nat.zero_lt_of_lt below'), ?_⟩
  rw [bound, without, if_neg other, without, if_neg other', without_of_notMem absent, without, if_neg leaf]
  rfl

/-- A subtree that is bound before another one does no harm, if it only stands in that one. -/
lemma value_hoisted_bound (ad : Arithmetic d) (unused : ¬ d.Mentions hoistedName) (sub : Subtree x d)
    (ne : x ≠ .nil) (env : Env) :
    (bound x (bound (d.without x) rest)).value env = (bound d rest).value env := by
  obtain ⟨ax, strict⟩ := sub.arithmetic ne ad
  rw [value_bound ax, value_bound ad]
  cases here : x.value env with
  | none => rw [strict env here, Option.bind_none, Option.bind_none]
  | some v =>
    rw [Option.bind_some, value_bound (arithmetic_without ad), value_without ad unused here]
    simp only [Function.update_idem]

/-- A hoisting keeps the value, and the first thing to be computed is again without the name. -/
lemma Staged.hoisted (st : Staged t) (twice : 2 ≤ t.subtrees.count x) (large : 2 < x.size)
    (inner : ∀ binding rest, t = .node (.op .seq) binding rest → x ∉ rest.subtrees) :
    Staged (hoisted x t) ∧ ∀ env, (Tree.hoisted x t).value env = t.value env := by
  have ne : x ≠ .nil := by
    rintro rfl
    exact absurd large (by decide)
  cases st with
  | plain ar unused =>
    have sub := Subtree.of_mem_subtrees (List.count_pos_iff.1 (Nat.zero_lt_of_lt twice))
    exact ⟨.bound (sub.arithmetic ne ar).1 fun m => unused (sub.mentions m), value_hoisted sub ne ar unused⟩
  | bound ad unused =>
    obtain ⟨mem, replaced⟩ := mem_of_bound twice large (inner _ _ rfl)
    have sub := Subtree.of_mem_subtrees mem
    rw [hoisted, replaced]
    exact ⟨.bound (sub.arithmetic ne ad).1 fun m => unused (sub.mentions m),
      value_hoisted_bound ad unused sub ne⟩

end Tree

namespace Build

/-- Hoists a number of times, each time from the root that the time before has returned. -/
def hoistTimes : Nat → Handle → Build Handle
  | 0, root => return root
  | n + 1, root => do
    let r ← hoist root
    hoistTimes n r

end Build

/-- If there is a binding at the root, then what would be hoisted next does not occur in what follows it. -/
def Store.HoistsInner (s : Store) (root : Handle) : Prop :=
  ∀ hit d binding rest, Duplicate.largest s root = .ok (some hit) → s.tree (some hit.handle) = .ok d →
    s.tree (some root) = .ok (.node (.op .seq) binding rest) → d ∉ rest.subtrees

namespace Build

variable {s s' : Store} {root r : Handle} {t : Tree Kind} {n : Nat}

/-- One more hoisting of something that does not occur after a binding. -/
lemma hoist_staged (u : s.Unfolds (some root) t) (st : t.Staged) (inner : s.HoistsInner root)
    (ran : (hoist root).run s = .ok r s') :
    ∃ t', s'.Unfolds (some r) t' ∧ t'.Staged ∧ ∀ env, t'.value env = t.value env := by
  have hoists := (hoist_hoists u).of_ok ran
  obtain ⟨o, found⟩ := Duplicate.largest_ok u
  cases o with
  | none =>
    cases hoists with
    | nothing => exact ⟨t, u, st, fun _ => rfl⟩
    | parts found' => cases found.symm.trans found'
  | some hit =>
    obtain ⟨c, cs, rfl⟩ := u.cells
    have repeated := Duplicate.repeated_of_largest cs found
    obtain ⟨d, ud, sized, twice⟩ := repeated.two_le_count cs (Duplicate.reaches_of_largest found)
    have once : ∀ binding rest, c.map Cell.kind = .node (.op .seq) binding rest → d ∉ rest.subtrees := by
      intro binding rest e
      exact inner hit d binding rest found (Store.tree_eq_ok_iff.2 ud) (Store.tree_eq_ok_iff.2 (e ▸ u))
    obtain ⟨st', same⟩ := st.hoisted twice (sized ▸ repeated.large) once
    exact ⟨_, hoists.unfolds found ud, st', same⟩

/-- Any number of hoistings, one after the other. -/
lemma hoistTimes_staged (u : s.Unfolds (some root) t) (st : t.Staged)
    (inner : ∀ k r s', k < n → (hoistTimes k root).run s = .ok r s' → s'.HoistsInner r)
    (ran : (hoistTimes n root).run s = .ok r s') :
    ∃ t', s'.Unfolds (some r) t' ∧ t'.Staged ∧ ∀ env, t'.value env = t.value env := by
  induction n generalizing s root t with
  | zero =>
    cases ran
    exact ⟨t, u, st, fun _ => rfl⟩
  | succ n ih =>
    rw [hoistTimes, EStateM.run_bind] at ran
    cases first : (hoist root).run s with
    | error e s₁ =>
      rw [first] at ran
      cases ran
    | ok r₁ s₁ =>
      rw [first] at ran
      obtain ⟨t₁, u₁, st₁, same₁⟩ := hoist_staged u st (inner 0 root s (Nat.succ_pos n) rfl) first
      have inner₁ : ∀ k r s', k < n → (hoistTimes k r₁).run s₁ = .ok r s' → s'.HoistsInner r := by
        intro k r s' lt later
        refine inner (k + 1) r s' (Nat.succ_lt_succ lt) ?_
        rw [hoistTimes, run_bind_of_ok first]
        exact later
      obtain ⟨t', u', st', same⟩ := ih u₁ st₁ inner₁ ran
      exact ⟨t', u', st', fun env => (same env).trans (same₁ env)⟩

end Build

open Build (hoistTimes)

section

variable {s s' : Store} {root r : Handle} {t : Tree Kind} {n : Nat}

/-- Any number of hoistings, each from the root that the one before has returned, keep the value of an
arithmetical tree without the name, or its lack of one, as long as none of them hoists something that occurs
after a binding that is there already. This goes for the first of them in any case. -/
theorem hoistTimes_keeps_value (tree : s.tree (some root) = .ok t) (ar : Arithmetic t)
    (unused : ¬ t.Mentions hoistedName)
    (inner : ∀ k r s', k < n → (hoistTimes k root).run s = .ok r s' → s'.HoistsInner r)
    (ran : (hoistTimes n root).run s = .ok r s') :
    ∃ t', s'.tree (some r) = .ok t' ∧ ∀ env, t'.value env = t.value env := by
  have u := Store.tree_eq_ok_iff.1 tree
  obtain ⟨t', u', -, same⟩ := Build.hoistTimes_staged u (.plain ar unused) inner ran
  exact ⟨t', Store.tree_eq_ok_iff.2 u', same⟩

end

/-- A store with `p - p` at 6, where `p` is `(a + b) * (a + b)`. -/
def nestedRepeats : Store where
  nodes := #[.var 'a', .var 'b', .binary .add ⟨0⟩ ⟨1⟩, .binary .add ⟨0⟩ ⟨1⟩, .binary .mul ⟨2⟩ ⟨3⟩,
    .binary .mul ⟨2⟩ ⟨3⟩, .binary .sub ⟨4⟩ ⟨5⟩]
  capacity := 32

/-- The same store with `@ = p, @ - @` at 12. -/
def nestedRepeatsNamed : Store :=
  nestedRepeats.append #[.var '@', .var '@', .binary .sub ⟨7⟩ ⟨8⟩, .var '@', .binary .assign ⟨10⟩ ⟨4⟩,
    .binary .seq ⟨11⟩ ⟨9⟩]

/-- The product is hoisted first, and then the sum, which is left in the product only. -/
theorem hoistTimes_keeps_value_nestedRepeats :
    ∃ t r s' t', nestedRepeats.tree (some ⟨6⟩) = .ok t ∧ (hoistTimes 2 ⟨6⟩).run nestedRepeats = .ok r s' ∧
      s'.tree (some r) = .ok t' ∧ ∀ env, t'.value env = t.value env := by
  have once : (hoistTimes 1 ⟨6⟩).run nestedRepeats = .ok ⟨12⟩ nestedRepeatsNamed := by decide +kernel
  have next : Duplicate.largest nestedRepeatsNamed ⟨12⟩ = .ok (some ⟨⟨2⟩, 3⟩) := by decide +kernel
  have inner : ∀ k r s', k < 2 → (hoistTimes k ⟨6⟩).run nestedRepeats = .ok r s' → s'.HoistsInner r := by
    intro k r s' lt ran hit d binding rest found sub bound
    match k with
    | 0 =>
      cases ran
      cases bound
    | 1 =>
      cases once.symm.trans ran
      cases next.symm.trans found
      cases sub
      cases bound
      decide
  have twice : ((hoistTimes 2 ⟨6⟩).run' nestedRepeats).isSome := by decide +kernel
  delta EStateM.run' at twice
  cases ran : (hoistTimes 2 ⟨6⟩).run nestedRepeats with
  | error e s' =>
    rw [ran] at twice
    cases twice
  | ok r s' =>
    obtain ⟨t, tree⟩ : ∃ t, nestedRepeats.tree (some ⟨6⟩) = .ok t := ⟨_, rfl⟩
    have ar : Arithmetic t := by
      cases tree
      repeat constructor
    have unused : ¬ t.Mentions hoistedName := by
      cases tree
      decide
    obtain ⟨t', tree', same⟩ := hoistTimes_keeps_value tree ar unused inner ran
    exact ⟨t, r, s', t', tree, rfl, tree', same⟩

/-- The tree of `x * x + y * y`. -/
def Tree.sumOfSquares (x y : Tree Kind) : Tree Kind :=
  .node (.op .add) (.node (.op .mul) x x) (.node (.op .mul) y y)

/-- Two squares are added. Hoisting twice makes both of them the square of `a + b`, because the difference is
read after its name has been given to the sum. -/
theorem hoistTimes_confuses_squares :
    ∃ t t', (Build.parse "(a+b)*(a+b)+(c-d)*(c-d)" >>= Build.kinds).run' {} = some t ∧
      (Build.parse "(a+b)*(a+b)+(c-d)*(c-d)" >>= hoistTimes 2 >>= Build.kinds).run' {} = some t' ∧
      Arithmetic t ∧ ¬ t.Mentions hoistedName ∧ ∃ env, t.value env = some 1 ∧ t'.value env = some 2 := by
  refine ⟨.sumOfSquares (.node (.op .add) (.named 'a') (.named 'b'))
      (.node (.op .sub) (.named 'c') (.named 'd')),
    .bound (.node (.op .sub) (.named 'c') (.named 'd')) (.bound (.node (.op .add) (.named 'a') (.named 'b'))
      (.sumOfSquares (.named '@') (.named '@'))), ?_, ?_, ?_, ?_, fun x => if x = 'a' then 1 else 0, ?_, ?_⟩
  · decide +kernel
  · decide +kernel
  · repeat constructor
  · decide
  · rfl
  · rfl

end ExprOpt
