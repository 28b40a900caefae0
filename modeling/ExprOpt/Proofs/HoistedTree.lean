import ExprOpt.Hoisting
import ExprOpt.Proofs.Building
import ExprOpt.Proofs.Evaluation

/-!
# Hoisting in trees

The tree that hoisting makes, `Tree.hoisted`, and its value. A subtree is computed first and named,
and the name stands for it in the rest. This is the value of the whole tree: the subtree has a value
wherever the tree has one, because operators need all their operands, and no variable is captured as
long as the tree does not mention the name (`Tree.value_hoisted`).

In the store, what is hoisted can be reached from the root (`Duplicate.reaches_of_largest`), so it is a
subtree of the tree below the root (`Build.hoist_ensures`).
-/

namespace ExprOpt

namespace Tree

/-- `Subtree d t`: the tree `d` stands somewhere in `t`. -/
inductive Subtree (d : Tree Kind) : Tree Kind → Prop where
  | refl :
    Subtree d d
  | left {k l r} :
    Subtree d l →
    Subtree d (.node k l r)
  | right {k l r} :
    Subtree d r →
    Subtree d (.node k l r)

/-- The tree with the hoisted variable in place of every subtree that equals the second tree. -/
def without : Tree Kind → Tree Kind → Tree Kind
  | .nil, _ => .nil
  | .node k l r, d =>
    if .node k l r = d then .node (.var hoistedName) .nil .nil
    else .node k (l.without d) (r.without d)

/-- The tree that computes `d`, names it and goes on with `rest`. -/
def bound (d rest : Tree Kind) : Tree Kind :=
  .node (.op .seq) (.node (.op .assign) (.node (.var hoistedName) .nil .nil) d) rest

/-- The tree that computes `d` first. -/
def hoisted (d t : Tree Kind) : Tree Kind := bound d (t.without d)

/-- Only nothing stands in the empty tree. -/
lemma Subtree.eq_nil {d : Tree Kind} (sub : Subtree d .nil) : d = .nil := by
  cases sub
  rfl

/-- A subtree of an arithmetical tree is arithmetical, and the tree has no value without it. -/
lemma Subtree.arithmetic {d t : Tree Kind} (sub : Subtree d t) (ne : d ≠ .nil) (ar : Arithmetic t) :
    Arithmetic d ∧ ∀ env, d.value env = none → t.value env = none := by
  induction sub with
  | refl => exact ⟨ar, fun _ => id⟩
  | left sub ih =>
    cases ar with
    | const => exact absurd sub.eq_nil ne
    | var => exact absurd sub.eq_nil ne
    | negation al =>
      obtain ⟨ad, strict⟩ := ih al
      refine ⟨ad, fun env e => ?_⟩
      rw [al.value_negation, strict env e, Option.map_none]
    | binary arith al ar =>
      obtain ⟨ad, strict⟩ := ih al
      refine ⟨ad, fun env e => ?_⟩
      rw [Arithmetic.value_binary arith al ar, strict env e, Option.bind_none]
  | right sub ih =>
    cases ar with
    | const => exact absurd sub.eq_nil ne
    | var => exact absurd sub.eq_nil ne
    | negation al => exact absurd sub.eq_nil ne
    | binary arith al ar =>
      obtain ⟨ad, strict⟩ := ih ar
      refine ⟨ad, fun env e => ?_⟩
      rw [Arithmetic.value_binary arith al ar, strict env e]
      cases Tree.value _ env <;> rfl

/-- Putting a variable in place of subtrees leaves an arithmetical tree. -/
lemma arithmetic_without {d t : Tree Kind} (ar : Arithmetic t) : Arithmetic (t.without d) := by
  induction ar with
  | const =>
    rw [without]
    split_ifs
    · exact .var
    · exact .const
  | var =>
    rw [without]
    split_ifs <;> exact .var
  | negation _ ih =>
    rw [without]
    split_ifs
    · exact .var
    · exact .negation ih
  | binary arith _ _ ihl ihr =>
    rw [without]
    split_ifs
    · exact .var
    · exact .binary arith ihl ihr

/-- The hoisted variable may stand for a subtree if it has that value and is not in use. -/
lemma value_without {d t : Tree Kind} {env : Env} {v : Int64} (ar : Arithmetic t)
    (unused : ¬ t.Mentions hoistedName) (here : d.value env = some v) :
    (t.without d).value (Function.update env hoistedName v) = t.value env := by
  -- Whatever node is replaced, the variable has the value of its tree.
  have replaced {k l r} (e : node k l r = d) :
      ((node k l r).without d).value (Function.update env hoistedName v) = (node k l r).value env := by
    rw [without, if_pos e, e, here]
    simp [value, eval]
  induction ar with
  | @const w =>
    by_cases e : node (.const w) .nil .nil = d
    · exact replaced e
    · rw [without, if_neg e]
      rfl
  | @var x =>
    by_cases e : node (.var x) .nil .nil = d
    · exact replaced e
    · have other : x ≠ hoistedName := by
        rintro rfl
        exact unused (.inl rfl)
      rw [without, if_neg e]
      simp [value, eval, Function.update_of_ne other]
  | @negation t al ih =>
    by_cases e : node (.op .sub) t .nil = d
    · exact replaced e
    · rw [without, if_neg e, without, (arithmetic_without al).value_negation, al.value_negation,
        ih fun m => unused (.inr (.inl m))]
  | @binary op l r arith al ar ihl ihr =>
    by_cases e : node (.op op) l r = d
    · exact replaced e
    · rw [without, if_neg e, Arithmetic.value_binary arith (arithmetic_without al)
        (arithmetic_without ar), Arithmetic.value_binary arith al ar,
        ihl fun m => unused (.inr (.inl m)), ihr fun m => unused (.inr (.inr m))]

/-- The value of a tree that computes and names `d` first. -/
lemma value_bound {d rest : Tree Kind} (ad : Arithmetic d) (env : Env) :
    (bound d rest).value env = (d.value env).bind fun v =>
      rest.value (Function.update env hoistedName v) := by
  simp only [bound, value, eval]
  rw [ad.eval_eq]
  cases d.value env <;> rfl

/-- Hoisting a subtree out of an arithmetical tree keeps its value, or its lack of one. -/
theorem value_hoisted {d t : Tree Kind} (sub : Subtree d t) (ne : d ≠ .nil) (ar : Arithmetic t)
    (unused : ¬ t.Mentions hoistedName) (env : Env) : (hoisted d t).value env = t.value env := by
  obtain ⟨ad, strict⟩ := sub.arithmetic ne ar
  rw [hoisted, value_bound ad]
  cases here : d.value env with
  | none => rw [strict env here, Option.bind_none]
  | some v => exact value_without ar unused here

end Tree

namespace Store

/-- The tree below what can be reached from a handle is a subtree. -/
lemma Unfolds.subtree {s : Store} {h g : Handle} {t : Tree Kind} (path : s.Reaches h g)
    (u : s.Unfolds (some h) t) : ∃ d, s.Unfolds (some g) d ∧ Tree.Subtree d t := by
  -- From the head, so that the tree gets smaller along the path.
  induction path using Relation.ReflTransGen.head_induction_on generalizing t with
  | refl => exact ⟨t, u, .refl⟩
  | head child _ ih =>
    obtain ⟨n, found, slot⟩ := child
    obtain ⟨m, l, r, found', ul, ur, rfl⟩ := u.inv
    cases Option.some.inj (found.symm.trans found')
    rcases slot with e | e
    · obtain ⟨d, ud, sub⟩ := ih (e ▸ ul)
      exact ⟨d, ud, sub.left⟩
    · obtain ⟨d, ud, sub⟩ := ih (e ▸ ur)
      exact ⟨d, ud, sub.right⟩

end Store

namespace Duplicate

variable {α β : Type} {s : Store} {root : Handle} {hits hits' : List Hit}

/-- A sequence of searches succeeds if both of them do. -/
lemma run_bind_eq_ok {x : Search α} {f : α → Search β} {b : β}
    (ran : (x >>= f).run hits = .ok b hits') :
    ∃ a mid, x.run hits = .ok a mid ∧ (f a).run mid = .ok b hits' := by
  rw [EStateM.run_bind] at ran
  cases e : x.run hits with
  | ok a mid =>
    rw [e] at ran
    exact ⟨a, mid, rfl, ran⟩
  | error e' mid =>
    rw [e] at ran
    cases ran

/-- Looking at the store leaves the hits alone. -/
lemma run_look_eq_ok {outcome : Except Error α} {a : α}
    (ran : (look outcome).run hits = .ok a hits') : outcome = .ok a ∧ hits' = hits := by
  cases outcome with
  | ok b =>
    cases ran
    exact ⟨rfl, rfl⟩
  | error e => cases ran

/-- A node that is considered becomes a hit if it is not the root, large enough and there again. -/
lemma consider_cases {n : Handle} (ran : (consider s root n).run hits = .ok () hits') :
    hits' = hits ∨ ∃ size, n ≠ root ∧ s.treeSize (some n) = .ok size ∧ threshold hits < size ∧
      s.occurs n (some root) = .ok true ∧ hits' = ⟨n, size⟩ :: hits := by
  unfold consider at ran
  split_ifs at ran with isRoot
  · cases ran
    exact .inl rfl
  · obtain ⟨size, mid, ran, ran'⟩ := run_bind_eq_ok ran
    obtain ⟨sized, rfl⟩ := run_look_eq_ok ran
    obtain ⟨_, _, ⟨⟩, ran⟩ := run_bind_eq_ok ran'
    split_ifs at ran with large
    · obtain ⟨again, mid', ran, ran'⟩ := run_bind_eq_ok ran
      obtain ⟨occurs, rfl⟩ := run_look_eq_ok ran
      cases again with
      | false =>
        cases ran'
        exact .inl rfl
      | true =>
        cases ran'
        exact .inr ⟨size, isRoot, sized, large, occurs, rfl⟩
    · cases ran
      exact .inl rfl

/-- All hits can be reached from the root, if the survey starts below it. -/
lemma surveyWithin_reaches {depth : Nat} {o : Option Handle}
    (below : ∀ g, o = some g → s.Reaches root g)
    (known : ∀ hit ∈ hits, s.Reaches root hit.handle)
    (ran : (surveyWithin s root depth o).run hits = .ok () hits') :
    ∀ hit ∈ hits', s.Reaches root hit.handle := by
  induction depth generalizing o hits hits' with
  | zero =>
    cases o with
    | none =>
      cases ran
      exact known
    | some g => cases ran
  | succ depth ih =>
    cases o with
    | none =>
      cases ran
      exact known
    | some g =>
      obtain ⟨_, _, ranHere, ran'⟩ := run_bind_eq_ok ran
      obtain ⟨n, hits₁, ranLook, ranBelow⟩ := run_bind_eq_ok ran'
      obtain ⟨found, rfl⟩ := run_look_eq_ok ranLook
      obtain ⟨_, hits₂, ranLeft, ranRight⟩ := run_bind_eq_ok ranBelow
      have here := below g rfl
      have found := Store.node_eq_ok_iff.1 found
      have known₁ : ∀ hit ∈ hits₁, s.Reaches root hit.handle := by
        rcases consider_cases ranHere with rfl | ⟨size, -, -, -, -, rfl⟩
        · exact known
        · exact List.forall_mem_cons.2 ⟨here, known⟩
      have known₂ := ih (fun c e => here.tail ⟨n, found, .inl e⟩) known₁ ranLeft
      exact ih (fun c e => here.tail ⟨n, found, .inr e⟩) known₂ ranRight

/-- The largest repeated subtree can be reached from the root. -/
lemma reaches_of_largest {hit : Hit} (found : largest s root = .ok (some hit)) :
    s.Reaches root hit.handle := by
  rw [largest] at found
  cases ran : survey s root with
  | error e hits =>
    rw [ran] at found
    cases found
  | ok _ hits =>
    rw [ran] at found
    have all := surveyWithin_reaches (fun g e => Option.some.inj e ▸ .refl) (by simp) ran
    exact all hit (List.mem_of_mem_head? (Except.ok.inj found))

end Duplicate

namespace Build

variable {s : Store}

/-- Allocation above two trees. -/
lemma alloc_ensures {n : Node} {l r : Tree Kind} (ul : s.Unfolds n.left l)
    (ur : s.Unfolds n.right r) :
    (alloc n).Ensures s (fun h s' => s.Extends s' ∧ s'.Unfolds (some h) (.node n.kind l r))
      (fun _ _ => True) :=
  .alloc (fun _ => ⟨Store.extends_push, ul.push ur⟩) fun _ => trivial

/-- A copy is allocated next to what is there. -/
lemma copyWithout_ensures (d t : Tree Kind) :
    (copyWithout d t).Ensures s (fun o s' => s.Extends s' ∧ s'.Unfolds o (t.without d))
      (fun _ _ => True) := by
  induction t generalizing s with
  | nil => exact .pure ⟨.refl, .nil⟩
  | node k l r ihl ihr =>
    rw [copyWithout, Tree.without]
    by_cases e : .node k l r = d
    · rw [if_pos e, if_pos e, ← bind_pure_comp]
      exact (alloc_ensures (n := .var hoistedName) .nil .nil).bind fun h s' copied => .pure copied
    · rw [if_neg e, if_neg e]
      refine ihl.bind fun left s₁ ⟨ext₁, ul⟩ => ihr.bind fun right s₂ ⟨ext₂, ur⟩ => ?_
      rw [← bind_pure_comp]
      refine (alloc_ensures (n := ⟨k, left, right⟩) (ul.extend ext₂) ur).bind
        fun h s' ⟨ext₃, uh⟩ => .pure ⟨(ext₁.trans ext₂).trans ext₃, uh⟩

/-- The kinds below a handle are those of the tree there. -/
lemma kinds_ensures (h : Handle) :
    (kinds h).Ensures s (fun t s' => s' = s ∧ s.Unfolds (some h) t) (fun _ _ => True) := by
  rw [kinds, ← bind_pure_comp]
  refine Ensures.bind (.inspect (Q := fun t s' => s' = s ∧ s.Unfolds (some h) (t.map Cell.kind))
    (fun t e => ⟨rfl, Store.unfolds_of_unfoldWithin e⟩) fun _ _ => trivial) ?_
  exact fun t s' post => .pure post

/-- A root is returned as it is, or it is replaced by the tree that computes a subtree first. -/
lemma hoist_ensures {root : Handle} {t : Tree Kind} (u : s.Unfolds (some root) t) :
    (hoist root).Ensures s
      (fun r s' => s'.Unfolds (some r) t ∨
        ∃ d, Tree.Subtree d t ∧ d ≠ .nil ∧ s'.Unfolds (some r) (.hoisted d t))
      (fun _ _ => True) := by
  refine Ensures.bind (.inspect (Q := fun o s' => s' = s ∧ Duplicate.largest s root = .ok o)
    (fun o e => ⟨rfl, e⟩) fun _ _ => trivial) ?_
  rintro o s ⟨rfl, largest⟩
  cases o with
  | none => exact .pure (.inl u)
  | some hit =>
    obtain ⟨d, ud, sub⟩ := u.subtree (Duplicate.reaches_of_largest largest)
    refine (kinds_ensures hit.handle).bind ?_
    rintro d' s ⟨rfl, ud'⟩
    cases ud.unique ud'
    refine (kinds_ensures root).bind ?_
    rintro t' s ⟨rfl, u'⟩
    cases u.unique u'
    refine (copyWithout_ensures d t).bind fun rest s₁ ⟨ext₁, ur⟩ => ?_
    refine (alloc_ensures (n := .var hoistedName) .nil .nil).bind fun name s₂ ⟨ext₂, un⟩ => ?_
    refine (alloc_ensures (n := .binary .assign name hit.handle) un
      (ud.extend (ext₁.trans ext₂))).bind fun binding s₃ ⟨ext₃, ub⟩ => ?_
    refine (alloc_ensures (n := ⟨.op .seq, some binding, rest⟩) ub
      (ur.extend (ext₂.trans ext₃))).weaken ?_ fun _ _ => id
    rintro r s' ⟨-, uh⟩
    refine .inr ⟨d, sub, ?_, uh⟩
    obtain ⟨n, l, r, -, -, -, rfl⟩ := ud.inv
    nofun

end Build

end ExprOpt
